import Mathlib

/-!
A leader-based replicated log whose quorums are read off the log itself. A `History` is
the durable state of every node and what has happened so far.
-/

namespace Consensus

variable {N E : Type*}

/-- What the protocol has to know. `anchor` is the length of the prefix that must be
committed before the configuration of a log may be used; two logs that hold each
other's anchored prefix have quorums that meet. -/
structure Rules (N E : Type*) where
  term : E → Nat
  valid : List E → Prop
  quorum : List E → Set N → Prop
  anchor : List E → Nat
  valid_nil : valid []
  valid_of_start : ∀ {short long}, short <+: long → valid long → valid short
  quorum_mono : ∀ {log small large}, small ⊆ large → quorum log small → quorum log large
  overlap : ∀ {left right leftVoters rightVoters}, valid left → valid right →
    left.take (anchor left) <+: right → right.take (anchor right) <+: left →
    quorum left leftVoters → quorum right rightVoters → (leftVoters ∩ rightVoters).Nonempty

namespace Rules

def lastTerm (rules : Rules N E) (log : List E) : Nat := (log.getLast?.map rules.term).getD 0

/-- The log on the left is at least as up to date as the one on the right. -/
def UpToDate (rules : Rules N E) (left right : List E) : Prop :=
  rules.lastTerm right < rules.lastTerm left ∨
    (rules.lastTerm right = rules.lastTerm left ∧ right.length ≤ left.length)

end Rules

/-- A vote: for whom, with which log, and whether the term had a leader by then. -/
structure Grant (N E : Type*) where
  candidate : N
  log : List E
  late : Bool

/-- A commit of the prefix of length `index` by the leader of `term`, whose log
was `log` then. -/
structure Commit (E : Type*) where
  term : Nat
  index : Nat
  log : List E

structure History (N E : Type*) where
  term : N → Nat
  vote : N → Option N
  log : N → List E
  requested : Nat → N → Option (List E)
  granted : Nat → N → Option (Grant N E)
  elected : Nat → Option (N × List E)
  leaderLog : Nat → List E
  /-- The longest prefix of the leader's log that a node acknowledged in a term. -/
  acked : Nat → N → Nat
  /-- Newest first. -/
  commits : List (Commit E)

namespace History

def init : History N E where
  term := fun _ => 0
  vote := fun _ => none
  log := fun _ => []
  requested := fun _ _ => none
  granted := fun _ _ => none
  elected := fun _ => none
  leaderLog := fun _ => []
  acked := fun _ _ => 0
  commits := []

def voters (history : History N E) (term : Nat) (candidate : N) : Set N :=
  {voter | ∃ grant, history.granted term voter = some grant ∧ grant.candidate = candidate}

def holders (history : History N E) (term index : Nat) : Set N :=
  {node | index ≤ history.acked term node}

/-- The leader of a term, if there is one, was elected with this prefix. -/
def Holds (history : History N E) (term : Nat) (start : List E) : Prop :=
  ∀ leader log, history.elected term = some (leader, log) → start <+: log

/-- The anchored prefix of the log is committed, by a leader of `term` or before. -/
def Certified (history : History N E) (rules : Rules N E) (commits : List (Commit E)) (term : Nat)
    (log : List E) : Prop :=
  rules.anchor log = 0 ∨ ∃ commit ∈ commits, commit.term ≤ term ∧ rules.anchor log ≤ commit.index ∧
    log.take (rules.anchor log) <+: history.leaderLog commit.term

section Actions
variable [DecidableEq N] (history : History N E)

def observe (node : N) (term : Nat) : History N E :=
  { history with
    term := Function.update history.term node term
    vote := Function.update history.vote node none }

def grant (voter candidate : N) : History N E :=
  let term := history.term voter
  { history with
    vote := Function.update history.vote voter (some candidate)
    granted := Function.update history.granted term
      (Function.update (history.granted term) voter
        (some ⟨candidate, history.log voter, (history.elected term).isSome⟩)) }

def request (node : N) : History N E :=
  let term := history.term node
  { history with
    requested := Function.update history.requested term
      (Function.update (history.requested term) node (some (history.log node))) }

def elect (node : N) : History N E :=
  let term := history.term node
  { history with
    elected := Function.update history.elected term (some (node, history.log node))
    leaderLog := Function.update history.leaderLog term (history.log node) }

def append (node : N) (entry : E) : History N E :=
  let log := history.log node ++ [entry]
  { history with
    log := Function.update history.log node log
    leaderLog := Function.update history.leaderLog (history.term node) log }

def accept (node : N) (log : List E) : History N E :=
  { history with log := Function.update history.log node log }

def acknowledge (node : N) (index : Nat) : History N E :=
  let term := history.term node
  { history with
    acked := Function.update history.acked term
      (Function.update (history.acked term) node (max (history.acked term node) index)) }

def commit (node : N) (index : Nat) : History N E :=
  { history with commits := ⟨history.term node, index, history.log node⟩ :: history.commits }

end Actions

inductive Step [DecidableEq N] (rules : Rules N E) (history : History N E) (node : N) :
    History N E → Prop
  | observe {term : Nat} (newer : history.term node < term) :
      Step rules history node (history.observe node term)
  | request (positive : 0 < history.term node)
      (fresh : history.requested (history.term node) node = none)
      (older : ∀ entry ∈ history.log node, rules.term entry < history.term node) :
      Step rules history node (history.request node)
  | grant {candidate : N} {log : List E} (free : history.vote node = none)
      (asked : history.requested (history.term node) candidate = some log)
      (upToDate : rules.UpToDate log (history.log node)) :
      Step rules history node (history.grant node candidate)
  | elect (open_ : history.elected (history.term node) = none)
      (asked : history.requested (history.term node) node = some (history.log node))
      (won : rules.quorum (history.log node) (history.voters (history.term node) node)) :
      Step rules history node (history.elect node)
  | append {entry : E} {start : List E}
      (leads : history.elected (history.term node) = some (node, start))
      (current : rules.term entry = history.term node)
      (valid : rules.valid (history.log node ++ [entry]))
      (certified : history.Certified rules history.commits (history.term node)
        (history.log node ++ [entry])) :
      Step rules history node (history.append node entry)
  | accept {leader : N} {start log : List E}
      (led : history.elected (history.term node) = some (leader, start))
      (follows : leader ≠ node)
      (matching : log <+: history.leaderLog (history.term node))
      (keeps : ∀ common, common <+: history.log node →
        common <+: history.leaderLog (history.term node) → common <+: log) :
      Step rules history node (history.accept node log)
  | acknowledge {index : Nat} (led : (history.elected (history.term node)).isSome)
      (within : index ≤ (history.log node).length)
      (matching : (history.log node).take index <+: history.leaderLog (history.term node)) :
      Step rules history node (history.acknowledge node index)
  | commit {start pre : List E} {entry : E}
      (leads : history.elected (history.term node) = some (node, start))
      (held : pre ++ [entry] <+: history.log node)
      (current : rules.term entry = history.term node)
      (won : rules.quorum (history.log node)
        (history.holders (history.term node) (pre.length + 1))) :
      Step rules history node (history.commit node (pre.length + 1))

def Steps [DecidableEq N] (rules : Rules N E) (node : N) : History N E → History N E → Prop :=
  Relation.ReflTransGen fun before after => Step rules before node after

end History
end Consensus
