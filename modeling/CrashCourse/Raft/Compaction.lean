import CrashCourse.Raft.Replay

/-!
Appends across a compacted log: an append is built and answered from the kept parts, and
the answer is compared with the whole histories.
-/

namespace CrashCourse.Raft
open CrashCourse.Core

structure RaftNode.Compacted (history : List Entry) (node : RaftNode) : Prop where
  numbered : Numbered 0 history
  base : node.snapshotIndex ≤ history.length
  log : node.log = history.drop node.snapshotIndex

/-- One history has an entry at the index that the other one does not have there. -/
def DiffersAt (mine theirs : List Entry) (index : Nat) : Prop :=
  0 < index ∧ index ≤ mine.length ∧ termOf mine index ≠ termOf theirs index

structure FirstDifference (mine theirs : List Entry) (index : Nat) : Prop where
  differs : DiffersAt mine theirs index
  first : ∀ earlier < index, ¬ DiffersAt mine theirs earlier

/-- The histories agree wherever the first one has an entry. -/
def Agrees (mine theirs : List Entry) : Prop := ∀ index, ¬ DiffersAt mine theirs index

/-- The first difference, if there is one, lies after `start` and not after `stop`. -/
def DiffersWithin (mine theirs : List Entry) (start stop : Nat) : Prop :=
  ∀ index, FirstDifference mine theirs index → start < index ∧ index ≤ stop

section Histories
variable {mine theirs : List Entry} {start stop : Nat}

theorem exists_firstDifference (differ : ¬ Agrees mine theirs) : ∃ index, FirstDifference mine theirs index := by
  classical
  have differs : ∃ index, DiffersAt mine theirs index := by
    simpa [Agrees] using differ
  exact ⟨Nat.find differs, Nat.find_spec differs, fun earlier below => Nat.find_min differs below⟩

theorem agrees_iff_differsWithin_self : Agrees mine theirs ↔ DiffersWithin mine theirs start start := by
  constructor
  · intro agrees index first
    exact absurd first.differs (agrees index)
  · intro within
    by_contra differ
    obtain ⟨index, first⟩ := exists_firstDifference differ
    have := within index first
    omega

theorem differsWithin_succ (same : termOf mine (start + 1) = termOf theirs (start + 1)) :
    DiffersWithin mine theirs (start + 1) stop ↔ DiffersWithin mine theirs start stop := by
  constructor
  · intro within index first
    have := within index first
    omega
  · intro within index first
    have := within index first
    have apart : index ≠ start + 1 := by
      rintro rfl
      exact first.differs.2.2 same
    omega

theorem termOf_append_left {log : List Entry} (rest : List Entry) {index : Nat}
    (within : index ≤ log.length) : termOf (log ++ rest) index = termOf log index := by
  cases index with
  | zero => rfl
  | succ position => simp [termOf, List.getElem?_append_left (show position < log.length by omega)]

theorem termOf_take {log : List Entry} {count index : Nat} (within : index ≤ count) :
    termOf (log.take count) index = termOf log index := by
  cases index with
  | zero => rfl
  | succ position => simp [termOf, List.getElem?_take_of_lt (show position < count by omega)]

/-- Where the follower's history is continued with the leader's entry, the differences
before the cut are all that is left. -/
theorem differsWithin_splice {entry : Entry} (here : theirs[start]? = some entry)
    (reaches : start ≤ mine.length) (carried : start < stop)
    (cut : start < mine.length → termOf mine (start + 1) ≠ termOf theirs (start + 1)) :
    DiffersWithin (mine.take start ++ [entry]) theirs (start + 1) stop ↔
      DiffersWithin mine theirs start stop := by
  have length : (mine.take start ++ [entry]).length = start + 1 := by simp [reaches]
  have below : ∀ {index}, index ≤ start →
      (DiffersAt (mine.take start ++ [entry]) theirs index ↔ DiffersAt mine theirs index) := by
    intro index within
    unfold DiffersAt
    rw [termOf_append_left _ (by simp [reaches]; omega), termOf_take within, length]
    constructor <;> rintro ⟨positive, _, differ⟩ <;> exact ⟨positive, by omega, differ⟩
  have last : ¬ DiffersAt (mine.take start ++ [entry]) theirs (start + 1) := by
    rintro ⟨_, _, differ⟩
    apply differ
    simp [termOf, here, reaches]
  constructor
  · intro within index first
    -- a difference up to the cut would be one of the spliced history as well
    have above : start < index := by
      by_contra low
      have := within index ⟨(below (by omega)).mpr first.differs, fun earlier less =>
        mt (below (by omega)).mp (first.first earlier less)⟩
      omega
    have longer : start < mine.length := by have := first.differs.2.1; omega
    have next : ¬ start + 1 < index := fun far =>
      first.first (start + 1) far ⟨by omega, by omega, cut longer⟩
    omega
  · intro within index first
    have low : index ≤ start := by
      have bound := first.differs.2.1
      rw [length] at bound
      have apart : index ≠ start + 1 := by
        rintro rfl
        exact last first.differs
      omega
    have := within index ⟨(below low).mp first.differs, fun earlier less =>
      mt (below (by omega)).mpr (first.first earlier less)⟩
    omega

end Histories

theorem Numbered.drop {log : List Entry} {base : Nat} (numbered : Numbered base log) (count : Nat)
    (within : count ≤ log.length) : Numbered (base + count) (log.drop count) := by
  induction count generalizing base log with
  | zero => simpa using numbered
  | succ count ih =>
    cases log with
    | nil => simp at within
    | cons entry rest =>
      have later := ih numbered.2 (by simpa using within)
      rw [List.drop_succ_cons]
      rwa [show base + (count + 1) = base + 1 + count by omega]

theorem Numbered.take {log : List Entry} {base : Nat} (numbered : Numbered base log) (count : Nat) :
    Numbered base (log.take count) := by
  induction count generalizing base log with
  | zero => trivial
  | succ count ih =>
    cases log with
    | nil => trivial
    | cons entry rest => exact ⟨numbered.1, ih numbered.2⟩

namespace RaftNode
variable {node pushed next : RaftNode} {mine theirs : List Entry} {message : Message} {entry : Entry}
  {effects : List RaftEffect}

namespace Compacted
variable (holder : node.Compacted mine)
include holder

theorem logNumbered : Numbered node.snapshotIndex node.log := by
  rw [holder.log]
  simpa using holder.numbered.drop node.snapshotIndex holder.base

theorem lastIndex_eq : node.lastIndex = mine.length := by
  have base := holder.base
  have length : node.log.length = mine.length - node.snapshotIndex := by simp [holder.log]
  unfold lastIndex
  cases last : node.log.getLast? with
  | none =>
    have none : node.log = [] := by simpa using last
    simp [none] at length
    simp
    omega
  | some entry =>
    have index := holder.logNumbered.getLast_index last
    simp
    omega

theorem entryAt_eq (position : Nat) : node.entryAt (position + 1) =
    if position < node.snapshotIndex then none else mine[position]? := by
  split
  next low => exact holder.logNumbered.find_none (by omega)
  next high =>
    have found := holder.logNumbered.find_index (position - node.snapshotIndex)
    rw [show node.snapshotIndex + (position - node.snapshotIndex) + 1 = position + 1 by omega,
      holder.log, List.getElem?_drop] at found
    rw [entryAt, holder.log, found, show node.snapshotIndex + (position - node.snapshotIndex) = position by omega]

end Compacted

theorem pushEntry_ok (done : node.pushEntry message entry effects = .ok pushed) :
    entry.index = node.lastIndex + 1 ∧ pushed.log = node.log ++ [entry] ∧
      pushed.snapshotIndex = node.snapshotIndex := by
  unfold pushEntry at done
  split at done
  · cases done
  next contiguous =>
    refine ⟨by simpa using contiguous, ?_⟩
    split at done
    · split at done
      · cases done
      next projected applied =>
        obtain rfl := Except.ok.inj done
        have body := (applyConfigOnAppend_body applied).1
        exact ⟨by rw [body.log], body.snapshotIndex⟩
    · obtain rfl := Except.ok.inj done
      exact ⟨rfl, rfl⟩

theorem truncateSuffix_log (node : RaftNode) (index : Nat) :
    (node.truncateSuffix index).log = node.log.filter (fun existing => decide (existing.index < index)) ∧
      (node.truncateSuffix index).snapshotIndex = node.snapshotIndex := by
  have body := rebuild_body
    { node with log := node.log.filter fun existing => decide (existing.index < index) }
  exact ⟨body.log, body.snapshotIndex⟩

theorem truncateSuffix_found {index : Nat} {existing : Entry} (numbered : Numbered node.snapshotIndex node.log)
    (found : node.entryAt index = some existing) :
    ∃ kept, index = node.snapshotIndex + kept + 1 ∧ node.log[kept]? = some existing ∧
      (node.truncateSuffix index).log = node.log.take kept ∧
      (node.truncateSuffix index).snapshotIndex = node.snapshotIndex := by
  obtain ⟨cut, base⟩ := truncateSuffix_log node index
  have place : existing.index = index := by simpa using List.find?_some found
  have above := numbered.index_gt (List.mem_of_find?_eq_some found)
  obtain ⟨kept, rfl⟩ : ∃ kept, index = node.snapshotIndex + kept + 1 := ⟨index - node.snapshotIndex - 1, by omega⟩
  exact ⟨kept, rfl, (numbered.find_index kept).symm.trans found, cut.trans (numbered.filter_lt kept), base⟩

variable {appended rest past : List Entry}

theorem Compacted.splice (holder : node.Compacted mine) {start : Nat}
    (above : node.snapshotIndex ≤ start) (reaches : start ≤ mine.length)
    (index : entry.index = start + 1) (kept : pushed.snapshotIndex = node.snapshotIndex)
    (log : pushed.log = (mine.take start).drop node.snapshotIndex ++ [entry]) :
    pushed.Compacted (mine.take start ++ [entry]) where
  numbered := (holder.numbered.take start).append (by simp [index, reaches])
  base := by
    rw [kept]
    simp [reaches]
    omega
  log := by
    rw [log, kept, List.drop_append_of_le_length (by simp [reaches]; omega)]

/-- At its end the loop has made the follower's history the leader's exactly if the
first difference was carried. -/
theorem appendLoop_history {start : Nat} {out : List RaftEffect × List Entry} (numbered : Numbered 0 theirs)
    (sent : rest <+: theirs.drop start) (holder : node.Compacted mine)
    (done : appendLoop message rest node effects appended = (next, .ok out)) :
    ∃ later, next.Compacted later ∧ next.snapshotIndex = node.snapshotIndex ∧
      later.take node.snapshotIndex = mine.take node.snapshotIndex ∧
      (Agrees later theirs ↔ DiffersWithin mine theirs start (start + rest.length)) := by
  induction rest generalizing node mine start effects appended with
  | nil =>
    rw [appendLoop] at done
    obtain ⟨rfl, -⟩ := Prod.mk.inj done
    exact ⟨mine, holder, rfl, rfl, agrees_iff_differsWithin_self⟩
  | cons entry rest ih =>
    have here : theirs[start]? = some entry := by
      obtain ⟨tail, split⟩ := sent
      have first : (theirs.drop start)[0]? = some entry := by rw [← split]; rfl
      simpa using first
    have index : entry.index = start + 1 := by simpa using numbered.getElem_index here
    have sent' : rest <+: theirs.drop (start + 1) := by
      obtain ⟨tail, split⟩ := sent
      refine ⟨tail, ?_⟩
      rw [← List.tail_drop, ← split]
      rfl
    have stop : start + 1 + rest.length = start + (entry :: rest).length := by simp; omega
    -- once the entry is pushed behind a cut at its place, the induction goes on from there
    have spliced : ∀ {cut pushed : RaftNode} {effects : List RaftEffect},
        node.snapshotIndex ≤ start → start ≤ mine.length →
        cut.snapshotIndex = node.snapshotIndex →
        cut.log = (mine.take start).drop node.snapshotIndex →
        (start < mine.length → termOf mine (start + 1) ≠ termOf theirs (start + 1)) →
        cut.pushEntry message entry effects = .ok pushed →
        appendLoop message rest pushed effects (appended ++ [entry]) = (next, .ok out) →
        ∃ later, next.Compacted later ∧ next.snapshotIndex = node.snapshotIndex ∧
          later.take node.snapshotIndex = mine.take node.snapshotIndex ∧
          (Agrees later theirs ↔
            DiffersWithin mine theirs start (start + (entry :: rest).length)) := by
      intro cut pushed effects above reaches base log differ pushes looped
      obtain ⟨-, pushedLog, pushedBase⟩ := pushEntry_ok pushes
      rw [base] at pushedBase
      obtain ⟨later, compacted, kept, below, agrees⟩ := ih sent'
        (holder.splice above reaches index pushedBase (by rw [pushedLog, log])) looped
      refine ⟨later, compacted, kept.trans pushedBase, ?_, ?_⟩
      · rw [pushedBase] at below
        rw [below, List.take_append_of_le_length (by simp [reaches]; omega), List.take_take, min_eq_left above]
      · rw [agrees, stop]
        exact differsWithin_splice here reaches (by simp) differ
    rw [appendLoop] at done
    cases found : node.entryAt entry.index with
    | some existing =>
      have held := found
      rw [index, holder.entryAt_eq] at held
      split at held
      next => cases held
      next above =>
        have reaches : start < mine.length := (List.getElem?_eq_some_iff.mp held).1
        have mineTerm : termOf mine (start + 1) = some existing.term := by simp [termOf, held]
        have theirTerm : termOf theirs (start + 1) = some entry.term := by simp [termOf, here]
        rw [found] at done
        dsimp only at done
        split at done
        next same =>
          obtain ⟨later, compacted, kept, below, agrees⟩ := ih sent' holder done
          refine ⟨later, compacted, kept, below, ?_⟩
          rw [agrees, stop]
          exact differsWithin_succ (by rw [mineTerm, theirTerm, same])
        next differ =>
          split at done
          · cases (Prod.mk.inj done).2
          split at done
          next => cases (Prod.mk.inj done).2
          next pushed pushes =>
            obtain ⟨cutLog, cutBase⟩ := truncateSuffix_log node entry.index
            refine spliced (by omega) reaches.le cutBase ?_ ?_ pushes done
            · have short := holder.logNumbered.filter_lt (start - node.snapshotIndex)
              rw [show node.snapshotIndex + (start - node.snapshotIndex) + 1 = entry.index by
                omega] at short
              rw [cutLog, short, holder.log, List.drop_take]
            · rw [mineTerm, theirTerm]
              exact fun _ => by simpa using differ
    | none =>
      rw [found] at done
      dsimp only at done
      split at done
      next => cases (Prod.mk.inj done).2
      next pushed pushes =>
        have contiguous := (pushEntry_ok pushes).1
        rw [holder.lastIndex_eq] at contiguous
        have ends : start = mine.length := by omega
        subst ends
        exact spliced holder.base le_rfl rfl (by rw [List.take_length]; exact holder.log)
          (fun longer => absurd longer (lt_irrefl _)) pushes done

def Silent (effects : List RaftEffect) : Prop := ∀ message, .send message ∉ effects

def Denies (effects : List RaftEffect) : Prop :=
  ∀ answer response, .send answer ∈ effects → answer.kind = .appendResp response →
    response.success = false

theorem Silent.append {first second : List RaftEffect} (one : Silent first) (two : Silent second) :
    Silent (first ++ second) := by
  intro message member
  rcases List.mem_append.mp member with member | member
  · exact one message member
  · exact two message member

theorem pushEntry_denies (silent : Silent effects) {out : List RaftEffect}
    (failed : node.pushEntry message entry effects = .error out) : Denies out := by
  unfold pushEntry at failed
  split at failed
  · obtain rfl := Except.error.inj failed
    intro answer response member kind
    simp only [List.mem_append, List.mem_cons, List.not_mem_nil, or_false, reduceCtorEq, false_or] at member
    rcases member with member | member
    · exact absurd member (silent answer)
    · obtain rfl := RaftEffect.send.inj member
      obtain rfl := MessageKind.appendResp.inj kind
      rfl
  · split at failed
    · split at failed
      · obtain rfl := Except.error.inj failed
        intro answer response member
        simp at member
      · cases failed
    · cases failed

/-- Only the end of the loop is answered with a success, and until then nothing is
released. -/
def Withholds : Except (List RaftEffect) (List RaftEffect × List Entry) → Prop
  | .error out => Denies out
  | .ok (out, _) => Silent out

theorem appendLoop_withholds (silent : Silent effects)
    {outcome : Except (List RaftEffect) (List RaftEffect × List Entry)}
    (done : appendLoop message rest node effects appended = (next, outcome)) : Withholds outcome := by
  induction rest generalizing node effects appended with
  | nil =>
    rw [appendLoop] at done
    obtain ⟨-, rfl⟩ := Prod.mk.inj done
    exact silent
  | cons entry rest ih =>
    rw [appendLoop] at done
    split at done
    · split at done
      · exact ih silent done
      · split at done
        · obtain ⟨-, rfl⟩ := Prod.mk.inj done
          intro answer response member
          rcases List.mem_append.mp member with member | member
          · exact absurd member (silent answer)
          · simp at member
        · have cut : Silent (effects ++ [.truncateSuffix entry.index]) :=
            silent.append (by intro message member; simp at member)
          dsimp only at done
          split at done
          next out failed =>
            obtain ⟨-, rfl⟩ := Prod.mk.inj done
            exact pushEntry_denies cut failed
          next => exact ih cut done
    · split at done
      next out failed =>
        obtain ⟨-, rfl⟩ := Prod.mk.inj done
        exact pushEntry_denies silent failed
      next => exact ih silent done

theorem acknowledgeAppend_answer {request : AppendRequest} {answer : Message} {response : AppendResponse}
    (silent : Silent effects) (answered : .send answer ∈ (node.acknowledgeAppend message request effects appended).2)
    (kind : answer.kind = .appendResp response) :
    (node.acknowledgeAppend message request effects appended).1.log = node.log ∧
      response.matchIndex = node.lastIndex := by
  have quiet : ∀ {entries : List Entry}, Silent (if entries.isEmpty then [] else [.apply entries]) := by
    intro entries message member
    split at member <;> simp at member
  have written : Silent (if appended.isEmpty then effects else effects ++ [.persistEntries appended]) := by
    split
    · exact silent
    · exact silent.append (by intro message member; simp at member)
  unfold acknowledgeAppend applyCommitted at answered ⊢
  by_cases commits : request.leaderCommit > node.commitIndex
  · simp only [if_pos commits] at answered ⊢
    rcases List.mem_append.mp answered with member | member
    · exact absurd member (written.append quiet answer)
    · obtain rfl := RaftEffect.send.inj (List.mem_singleton.mp member)
      obtain rfl := MessageKind.appendResp.inj kind
      exact ⟨trivial, rfl⟩
  · simp only [if_neg commits, List.append_nil] at answered ⊢
    rcases List.mem_append.mp answered with member | member
    · exact absurd member (written answer)
    · obtain rfl := RaftEffect.send.inj (List.mem_singleton.mp member)
      obtain rfl := MessageKind.appendResp.inj kind
      exact ⟨trivial, rfl⟩

theorem appendRequest_success {request : AppendRequest} {now : Nat} {answer : Message}
    {response : AppendResponse} (answered : .send answer ∈ (node.appendRequest message request now).2)
    (kind : answer.kind = .appendResp response) (success : response.success) :
    ∃ ready looped out, ready.log = node.log ∧ ready.snapshotIndex = node.snapshotIndex ∧
      appendLoop message request.entries ready [] [] = (looped, .ok out) ∧
      (node.appendRequest message request now).1.log = looped.log ∧
      response.matchIndex = looped.lastIndex := by
  have refused : ∀ {effects : List RaftEffect}, Denies effects → .send answer ∉ effects := by
    intro effects denies member
    simp [denies answer response member kind] at success
  unfold appendRequest at answered ⊢
  split at answered
  · refine absurd answered (refused ?_)
    intro answer response member kind
    obtain rfl := RaftEffect.send.inj (List.mem_singleton.mp member)
    obtain rfl := MessageKind.appendResp.inj kind
    rfl
  next current =>
    rw [if_neg current]
    dsimp only at answered ⊢
    split at answered
    · refine absurd answered (refused ?_)
      intro answer response member kind
      obtain rfl := RaftEffect.send.inj (List.mem_singleton.mp member)
      obtain rfl := MessageKind.appendResp.inj kind
      rfl
    next agreed =>
      rw [if_neg agreed]
      split at answered
      next looped out done =>
        exact absurd answered (refused (appendLoop_withholds (by intro _ none; cases none) done))
      next looped effects appended done =>
        have silent : Silent effects := appendLoop_withholds (by intro _ none; cases none) done
        refine ⟨_, looped, (effects, appended), ?_, ?_, done,
          acknowledgeAppend_answer silent answered kind⟩
        · rfl
        · rfl

def firstCarried (node : RaftNode) (peer : NodeId) : Nat :=
  max (node.nextIndex[peer]?.getD (node.lastIndex + 1)) (node.snapshotIndex + 1)

def carriedTo (node : RaftNode) (peer : NodeId) (index : Nat) : Bool :=
  decide (node.firstCarried peer ≤ index) && decide (index ≤ node.lastIndex) &&
    decide (index < node.firstCarried peer + node.config.maxEntriesPerAppend)

theorem sendAppend_carries (origin : node.Compacted past) {peer : NodeId}
    (sent : .send message ∈ node.sendAppend peer) : ∃ request, message.kind = .appendReq request ∧
      request.entries = (past.drop (node.firstCarried peer - 1)).take
        node.config.maxEntriesPerAppend := by
  obtain rfl := RaftEffect.send.inj (List.mem_singleton.mp sent)
  refine ⟨_, rfl, ?_⟩
  have kept := origin.logNumbered.filter_ge (node.firstCarried peer - 1 - node.snapshotIndex)
  have above : node.snapshotIndex + 1 ≤ node.firstCarried peer := le_max_right _ _
  rw [show node.snapshotIndex + (node.firstCarried peer - 1 - node.snapshotIndex) + 1 =
    node.firstCarried peer by omega] at kept
  -- the entries below the base are not there to be filtered out
  have same : (node.log.filter fun entry => decide (entry.index ≥
      node.nextIndex[peer]?.getD (node.lastIndex + 1))) =
      node.log.filter fun entry => decide (entry.index ≥ node.firstCarried peer) := by
    apply List.filter_congr
    intro entry member
    have high : node.snapshotIndex < entry.index := origin.logNumbered.index_gt member
    unfold firstCarried
    rw [decide_eq_decide]
    omega
  change (node.log.filter _).take _ = _
  rw [same, kept, origin.log, List.drop_drop]
  congr 2
  omega

theorem carriedTo_iff (origin : node.Compacted past) {peer : NodeId} {index : Nat} : node.carriedTo peer index ↔
      node.firstCarried peer - 1 < index ∧ index ≤ node.firstCarried peer - 1 +
        ((past.drop (node.firstCarried peer - 1)).take node.config.maxEntriesPerAppend).length := by
  have above : node.snapshotIndex + 1 ≤ node.firstCarried peer := le_max_right _ _
  simp only [carriedTo, Bool.and_eq_true, decide_eq_true_eq, origin.lastIndex_eq, List.length_take, List.length_drop]
  omega

end RaftNode

theorem RaftNode.onMessageAt_append {node : RaftNode} {message answer : Message}
    {request : AppendRequest} {now : Nat} (kind : message.kind = .appendReq request)
    (answered : .send answer ∈ (node.onMessageAt message now).2) :
    ∃ ready : RaftNode, ready.log = node.log ∧ ready.snapshotIndex = node.snapshotIndex ∧
      .send answer ∈ (ready.appendRequest message request now).2 ∧
      (node.onMessageAt message now).1 = (ready.appendRequest message request now).1 := by
  have observed : (node.observeTerm message).1.log = node.log ∧
      (node.observeTerm message).1.snapshotIndex = node.snapshotIndex ∧
      Silent (node.observeTerm message).2 := by
    unfold observeTerm
    split
    · exact ⟨rfl, rfl, by intro message member; simp at member⟩
    · exact ⟨rfl, rfl, by intro message member; simp at member⟩
  have dispatched : (node.observeTerm message).1.dispatch message now =
      (node.observeTerm message).1.appendRequest message request now := by
    unfold dispatch
    rw [kind]
  unfold onMessageAt at answered ⊢
  split at answered
  · simp at answered
  next supported =>
    rw [if_neg supported]
    dsimp only at answered ⊢
    rw [dispatched] at answered ⊢
    rcases List.mem_append.mp answered with member | member
    · exact absurd member (observed.2.2 answer)
    · exact ⟨_, observed.1, observed.2.1, member, rfl⟩

section Answer
variable {leader follower : RaftNode} {past prior : List Entry} {peer : NodeId} {now : Nat}
  {message answer : Message} {response : AppendResponse} (origin : leader.Compacted past)
  (holder : follower.Compacted prior) (sent : .send message ∈ leader.sendAppend peer)
  (answered : .send answer ∈ (follower.onMessageAt message now).2)
  (kind : answer.kind = .appendResp response) (success : response.success)
include origin holder sent answered kind success

/-- A success names the end of the follower's history, which agrees with the leader's
exactly if the append carried the first difference. -/
theorem RaftNode.Compacted.acknowledged : response.matchIndex = (prior.take follower.snapshotIndex ++
      (follower.onMessageAt message now).1.log).length ∧
    (Agrees (prior.take follower.snapshotIndex ++ (follower.onMessageAt message now).1.log) past ↔
      ∀ index, FirstDifference prior past index → leader.carriedTo peer index) := by
  obtain ⟨request, isAppend, entries⟩ := RaftNode.sendAppend_carries origin sent
  obtain ⟨ready, readyLog, readyBase, answered', outcome⟩ :=
    RaftNode.onMessageAt_append isAppend answered
  obtain ⟨started, looped, out, log, base, done, finalLog, matchIndex⟩ :=
    RaftNode.appendRequest_success answered' kind success
  have held : started.Compacted prior := by
    refine ⟨holder.numbered, ?_, ?_⟩
    · rw [base, readyBase]; exact holder.base
    · rw [log, readyLog, base, readyBase]; exact holder.log
  obtain ⟨later, compacted, kept, below, agrees⟩ := RaftNode.appendLoop_history origin.numbered
    (entries ▸ List.take_prefix _ _) held done
  have whole : prior.take follower.snapshotIndex ++ (follower.onMessageAt message now).1.log =
      later := by
    rw [outcome, finalLog, compacted.log, kept]
    rw [base, readyBase] at below ⊢
    rw [← below, List.take_append_drop]
  rw [whole, matchIndex, compacted.lastIndex_eq]
  refine ⟨rfl, agrees.trans ?_⟩
  constructor
  · intro within index first
    rw [RaftNode.carriedTo_iff origin, ← entries]
    exact within index first
  · intro carried index first
    rw [entries]
    exact (RaftNode.carriedTo_iff origin).mp (carried index first)

/-- Whoever answers an append with a success holds what the leader's history has, up
to the index it names, exactly if the first place where its own history differed was
carried. -/
theorem append_success_agrees_iff : (∀ index, 0 < index → index ≤ response.matchIndex →
      termOf (prior.take follower.snapshotIndex ++ (follower.onMessageAt message now).1.log) index =
        termOf past index ∧ (termOf past index).isSome) ↔
    ∀ index, FirstDifference prior past index → leader.carriedTo peer index := by
  obtain ⟨matchIndex, agrees⟩ := origin.acknowledged holder sent answered kind success
  rw [matchIndex, ← agrees]
  constructor
  · rintro same index ⟨positive, within, differ⟩
    exact differ (same index positive within).1
  · intro agreed index positive within
    have same := not_imp_comm.mp (fun differ => agreed index ⟨positive, within, differ⟩) not_false
    refine ⟨same, ?_⟩
    rw [← same]
    obtain ⟨position, rfl⟩ := Nat.exists_eq_succ_of_ne_zero positive.ne'
    rw [termOf, List.getElem?_eq_getElem (by omega)]
    rfl

end Answer

def compactedHistory : List Entry := [⟨2, 1, .noop, []⟩, ⟨2, 2, .app, []⟩, ⟨3, 3, .noop, []⟩]

def compactedLeader : RaftNode :=
  { RaftNode.new 1 (Std.ExtTreeSet.ofList [1, 2] compare) 1 .default with
    role := .leader
    hardState := ⟨3, some 1⟩
    snapshotIndex := 2
    snapshotTerm := 2
    log := [⟨3, 3, .noop, []⟩]
    nextIndex := (∅ : BTreeMap NodeId Nat).insert 2 4
    matchIndex := (∅ : BTreeMap NodeId Nat).insert 2 0 }

def upToDateFollower : RaftNode :=
  { RaftNode.new 2 (Std.ExtTreeSet.ofList [1, 2] compare) 2 .default with
    hardState := ⟨3, some 1⟩
    log := [⟨2, 1, .noop, []⟩, ⟨2, 2, .app, []⟩] }

def staleFollower : RaftNode :=
  { RaftNode.new 2 (Std.ExtTreeSet.ofList [1, 2] compare) 2 .default with
    hardState := ⟨3, some 1⟩
    log := [⟨1, 1, .noop, []⟩, ⟨1, 2, .app, []⟩] }

def exchange (nodes : RaftNode × RaftNode) : RaftNode × RaftNode :=
  match nodes.1.sendAppend nodes.2.id with
  | [.send message] =>
    let (follower, effects) := nodes.2.onMessageAt message 0
    let leader := effects.foldl (fun leader effect => match effect with
      | .send answer => (leader.onMessageAt answer 0).1
      | _ => leader) nodes.1
    (leader, follower)
  | _ => nodes

def fittingAppend : Message := ⟨2, 1, 2, 3, .appendReq ⟨2, 2, [⟨3, 3, .noop, []⟩], 0, 0⟩⟩

def fittingAnswer : Message := ⟨2, 2, 1, 3, .appendResp ⟨true, 3, none, 0, 0⟩⟩

def fittedHistory : List Entry :=
  upToDateFollower.log.take (exchange (compactedLeader, upToDateFollower)).2.snapshotIndex ++
    ((exchange (compactedLeader, upToDateFollower)).2.onMessageAt fittingAppend 0).1.log

theorem append_success_agrees_iff_upToDate : termOf fittedHistory 1 = termOf compactedHistory 1 ∧
      termOf fittedHistory 2 = termOf compactedHistory 2 ∧
      termOf fittedHistory 3 = termOf compactedHistory 3 := by
  have origin : (exchange (compactedLeader, upToDateFollower)).1.Compacted compactedHistory := by
    constructor <;> decide +kernel
  have holder : (exchange (compactedLeader, upToDateFollower)).2.Compacted upToDateFollower.log := by
    constructor <;> decide +kernel
  have sent : .send fittingAppend ∈ (exchange (compactedLeader, upToDateFollower)).1.sendAppend 2 := by
    decide +kernel
  have answered : .send fittingAnswer ∈
      ((exchange (compactedLeader, upToDateFollower)).2.onMessageAt fittingAppend 0).2 := by
    decide +kernel
  have same := (append_success_agrees_iff origin holder sent answered rfl rfl).mpr ?_
  · exact ⟨(same 1 (by decide) (by decide)).1, (same 2 (by decide) (by decide)).1,
      (same 3 (by decide) (by decide)).1⟩
  · rintro index ⟨⟨positive, within, differ⟩, -⟩
    have short : index ≤ 2 := within
    interval_cases index <;> exact absurd rfl differ

/-- After three refusals the leader appends below its base, the follower finds the
empty start of the log in place, and the leader's third entry goes on top of two that
it never had. -/
theorem stale_prefix_acknowledged :
    compactedLeader.Compacted compactedHistory ∧ staleFollower.Compacted staleFollower.log ∧
    ∃ message answer response,
      .send message ∈ (exchange^[3] (compactedLeader, staleFollower)).1.sendAppend 2 ∧
      .send answer ∈ ((exchange^[3] (compactedLeader, staleFollower)).2.onMessageAt message 0).2 ∧
      answer.kind = .appendResp response ∧ response.success ∧ response.matchIndex = 3 ∧
      termOf ((exchange^[3] (compactedLeader, staleFollower)).2.onMessageAt message 0).1.log 1 ≠
        termOf compactedHistory 1 := by
  refine ⟨⟨?_, ?_, ?_⟩, ⟨?_, ?_, ?_⟩, ⟨2, 1, 2, 3, .appendReq ⟨0, 0, [⟨3, 3, .noop, []⟩], 0, 0⟩⟩,
    ⟨2, 2, 1, 3, .appendResp ⟨true, 3, none, 0, 0⟩⟩, ⟨true, 3, none, 0, 0⟩, ?_⟩
  all_goals decide +kernel

structure CcsnSnapshot where
  appliedIndex : Nat
  appliedTerm : Nat
  membership : MembershipState
  leadershipTransfer : Option LeadershipTransfer

inductive InstallError where
  | malformedCommittedEntry (index : Nat)
  | raft (error : RaftError)
  deriving DecidableEq, Repr

namespace RaftNode

/-- `install_decoded_ccsn_snapshot`, the Raft part, behind the host's checks of
cluster id and policy. -/
def installDecodedCcsnSnapshot (node : RaftNode) (snapshot : CcsnSnapshot) :
    RaftNode × Except InstallError Unit :=
  if snapshot.appliedIndex < node.appliedIndex then
    (node, .error (.malformedCommittedEntry snapshot.appliedIndex))
  else
    match node.restoreMembershipState snapshot.membership with
    | (node, .error error) => (node, .error (.raft error))
    | (node, .ok _) =>
      match node.restoreLeadershipTransfer snapshot.leadershipTransfer with
      | (node, .error error) => (node, .error (.raft error))
      | (node, .ok _) =>
        ((node.installSnapshotState snapshot.appliedIndex
          snapshot.appliedTerm).replayRetainedMembershipSuffix, .ok ())

/-- `install_snapshot_state` leaves the log as it is. -/
def ignoresSnapshot (node : RaftNode) (index term : Nat) : Bool :=
  decide (index < node.snapshotIndex) ||
    (index == node.snapshotIndex && term != node.snapshotTerm)

theorem restoreMembershipState_log (node : RaftNode) (state : MembershipState) :
    (node.restoreMembershipState state).1.log = node.log ∧
      (node.restoreMembershipState state).1.snapshotIndex = node.snapshotIndex ∧
      (node.restoreMembershipState state).1.snapshotTerm = node.snapshotTerm := by
  unfold restoreMembershipState
  split <;> exact ⟨rfl, rfl, rfl⟩

theorem restoreLeadershipTransfer_log (node : RaftNode) (transfer : Option LeadershipTransfer) :
    (node.restoreLeadershipTransfer transfer).1.log = node.log ∧
      (node.restoreLeadershipTransfer transfer).1.snapshotIndex = node.snapshotIndex ∧
      (node.restoreLeadershipTransfer transfer).1.snapshotTerm = node.snapshotTerm := by
  unfold restoreLeadershipTransfer
  split
  · exact ⟨rfl, rfl, rfl⟩
  · split <;> exact ⟨rfl, rfl, rfl⟩

/-- An install that is not refused cuts the log at the snapshot's index without a look
at the entry there; an ignored one leaves it alone. -/
theorem installDecodedCcsnSnapshot_log {node installed : RaftNode} {snapshot : CcsnSnapshot}
    (done : node.installDecodedCcsnSnapshot snapshot = (installed, .ok ())) :
    if node.ignoresSnapshot snapshot.appliedIndex snapshot.appliedTerm then
      installed.log = node.log ∧ installed.snapshotIndex = node.snapshotIndex else
      installed.log = node.log.filter (fun entry => decide (entry.index > snapshot.appliedIndex)) ∧
        installed.snapshotIndex = snapshot.appliedIndex := by
  unfold installDecodedCcsnSnapshot at done
  split at done
  · cases (Prod.mk.inj done).2
  have one := node.restoreMembershipState_log snapshot.membership
  generalize node.restoreMembershipState snapshot.membership = restored at one done
  obtain ⟨restored, outcome⟩ := restored
  cases outcome with
  | error error => cases (Prod.mk.inj done).2
  | ok _ =>
    have two := restored.restoreLeadershipTransfer_log snapshot.leadershipTransfer
    dsimp only at done
    generalize restored.restoreLeadershipTransfer snapshot.leadershipTransfer = resumed at two done
    obtain ⟨resumed, outcome⟩ := resumed
    cases outcome with
    | error error => cases (Prod.mk.inj done).2
    | ok _ =>
      obtain ⟨rfl, -⟩ := Prod.mk.inj done
      have body := (resumed.installSnapshotState snapshot.appliedIndex
        snapshot.appliedTerm).rebuild_body
      dsimp only at one two
      rw [one.1, one.2.1, one.2.2] at two
      unfold replayRetainedMembershipSuffix
      rw [body.log, body.snapshotIndex]
      unfold installSnapshotState ignoresSnapshot
      rw [two.2.1, two.2.2]
      by_cases ignored : snapshot.appliedIndex < node.snapshotIndex ∨
          (snapshot.appliedIndex = node.snapshotIndex ∧ snapshot.appliedTerm ≠ node.snapshotTerm)
      · rw [if_pos ignored, if_pos (by simpa using ignored)]
        exact ⟨two.1, two.2.1⟩
      · rw [if_neg ignored, if_neg (by simpa using ignored)]
        exact ⟨by rw [two.1], rfl⟩

end RaftNode

theorem Numbered.append_list {base : Nat} {first second : List Entry} (one : Numbered base first)
    (two : Numbered (base + first.length) second) : Numbered base (first ++ second) := by
  induction first generalizing base with
  | nil => simpa using two
  | cons entry rest ih =>
    refine ⟨one.1, ih one.2 ?_⟩
    rwa [List.length_cons, show base + (rest.length + 1) = base + 1 + rest.length by omega] at two

/-- After an install: the leader's history up to the snapshot, and what the follower
kept above it. -/
def installedHistory (node : RaftNode) (snapshot : CcsnSnapshot) (past prior : List Entry) :
    List Entry :=
  if node.ignoresSnapshot snapshot.appliedIndex snapshot.appliedTerm then prior
  else past.take snapshot.appliedIndex ++ prior.drop snapshot.appliedIndex

section Install
variable {node installed : RaftNode} {snapshot : CcsnSnapshot} {past prior : List Entry}
  (holder : node.Compacted prior)
  (done : node.installDecodedCcsnSnapshot snapshot = (installed, .ok ()))
include holder done

theorem installed_compacted (numbered : Numbered 0 past) (reaches : snapshot.appliedIndex ≤ past.length) :
    installed.Compacted (installedHistory node snapshot past prior) := by
  have log := RaftNode.installDecodedCcsnSnapshot_log done
  unfold installedHistory
  split at log
  next ignored =>
    rw [if_pos ignored]
    exact ⟨holder.numbered, by rw [log.2]; exact holder.base, by rw [log.1, log.2]; exact holder.log⟩
  next taken =>
    rw [if_neg taken]
    have above : node.snapshotIndex ≤ snapshot.appliedIndex := by
      simp only [RaftNode.ignoresSnapshot, Bool.or_eq_true, decide_eq_true_eq, not_or] at taken
      omega
    have length : (past.take snapshot.appliedIndex).length = snapshot.appliedIndex := by
      simp [reaches]
    refine ⟨(numbered.take _).append_list ?_, ?_, ?_⟩
    · rw [length, Nat.zero_add]
      by_cases short : snapshot.appliedIndex ≤ prior.length
      · simpa using holder.numbered.drop _ short
      · rw [List.drop_of_length_le (by omega)]
        trivial
    · rw [log.2, List.length_append, length]
      omega
    · have kept := holder.logNumbered.filter_ge (snapshot.appliedIndex - node.snapshotIndex)
      rw [show node.snapshotIndex + (snapshot.appliedIndex - node.snapshotIndex) + 1 =
        snapshot.appliedIndex + 1 by omega] at kept
      rw [log.1, log.2, List.drop_append, length, List.drop_of_length_le (by omega),
        List.nil_append, Nat.sub_self, List.drop_zero]
      refine Eq.trans ?_ (kept.trans ?_)
      · rfl
      · rw [holder.log, List.drop_drop]
        congr 1
        omega

omit holder in
theorem installed_above {entry : Entry} (above : snapshot.appliedIndex < entry.index) :
    entry ∈ installed.log ↔ entry ∈ node.log := by
  have log := RaftNode.installDecodedCcsnSnapshot_log done
  split at log
  · rw [log.1]
  · rw [log.1]
    simp [above]

end Install

/-- What survives an install extends the snapshot exactly if the follower had nothing
above it or held its entry; and whoever then answers an append of that leader with a
success holds its history exactly if the append carries the first place where the kept
entries differ. -/
theorem install_extends_snapshot_iff {leader node installed : RaftNode} {snapshot : CcsnSnapshot}
    {past prior : List Entry} (holder : node.Compacted prior) (origin : leader.Compacted past)
    (source : termOf past snapshot.appliedIndex = some snapshot.appliedTerm)
    (done : node.installDecodedCcsnSnapshot snapshot = (installed, .ok ())) : ((snapshot.appliedIndex ≤ prior.length →
        termOf prior snapshot.appliedIndex ≠ some snapshot.appliedTerm →
        ∀ entry ∈ installed.log, entry.index ≤ snapshot.appliedIndex) ↔
      ((∃ entry ∈ node.log, snapshot.appliedIndex < entry.index) →
        termOf prior snapshot.appliedIndex = some snapshot.appliedTerm)) ∧
    ∀ {peer : NodeId} {now : Nat} {message answer : Message} {response : AppendResponse},
      .send message ∈ leader.sendAppend peer → .send answer ∈ (installed.onMessageAt message now).2 →
      answer.kind = .appendResp response → response.success →
      response.matchIndex = ((installedHistory node snapshot past prior).take
        installed.snapshotIndex ++ (installed.onMessageAt message now).1.log).length ∧
      (Agrees ((installedHistory node snapshot past prior).take installed.snapshotIndex ++
          (installed.onMessageAt message now).1.log) past ↔
        ∀ index, FirstDifference (installedHistory node snapshot past prior) past index →
          leader.carriedTo peer index) := by
  constructor
  · constructor
    · rintro extends_ ⟨entry, member, above⟩
      by_contra differ
      have reaches : snapshot.appliedIndex ≤ prior.length := by
        rw [holder.log] at member
        obtain ⟨position, here⟩ := List.getElem?_of_mem (List.mem_of_mem_drop member)
        have index := holder.numbered.getElem_index here
        have := (List.getElem?_eq_some_iff.mp here).1
        omega
      have low := extends_ reaches differ entry ((installed_above done above).mpr member)
      omega
    · intro same _ differ entry member
      by_contra above
      have high : snapshot.appliedIndex < entry.index := by omega
      exact differ (same ⟨entry, (installed_above done high).mp member, high⟩)
  · intro peer now message answer response sent answered kind success
    have reaches : snapshot.appliedIndex ≤ past.length := by
      revert source
      cases snapshot.appliedIndex with
      | zero => simp
      | succ position =>
        intro here
        by_contra short
        rw [termOf, List.getElem?_eq_none (by omega)] at here
        cases here
    exact origin.acknowledged (installed_compacted holder done origin.numbered reaches) sent
      answered kind success

def sendingLeader : RaftNode :=
  { RaftNode.new 1 (Std.ExtTreeSet.ofList [1, 2] compare) 1 .default with
    role := .leader
    hardState := ⟨2, some 1⟩
    snapshotIndex := 2
    snapshotTerm := 2
    nextIndex := (∅ : BTreeMap NodeId Nat).insert 2 3
    matchIndex := (∅ : BTreeMap NodeId Nat).insert 2 0 }

def sendingHistory : List Entry := [⟨2, 1, .noop, []⟩, ⟨2, 2, .app, []⟩]

def sentSnapshot : CcsnSnapshot where
  appliedIndex := 2
  appliedTerm := 2
  membership :=
    { voters := Std.ExtTreeSet.ofList [1, 2] compare
      learners := ∅
      joint := none
      addresses := ∅
      activeFeatures := 0 }
  leadershipTransfer := none

def divergentFollower : RaftNode :=
  { RaftNode.new 2 (Std.ExtTreeSet.ofList [1, 2] compare) 2 .default with
    hardState := ⟨2, some 1⟩
    log := [⟨1, 1, .noop, []⟩, ⟨1, 2, .app, []⟩, ⟨1, 3, .app, []⟩] }

def alignedFollower : RaftNode := { divergentFollower with log := sendingHistory }

def heartbeatAppend : Message := ⟨2, 1, 2, 2, .appendReq ⟨2, 2, [], 0, 0⟩⟩

def heartbeatAnswer (matchIndex : Nat) : Message :=
  ⟨2, 2, 1, 2, .appendResp ⟨true, matchIndex, none, 0, 0⟩⟩

theorem install_extends_snapshot_iff_aligned :
    (installedHistory alignedFollower sentSnapshot sendingHistory alignedFollower.log) =
      sendingHistory ∧ Agrees ((installedHistory alignedFollower sentSnapshot sendingHistory alignedFollower.log).take
      (alignedFollower.installDecodedCcsnSnapshot sentSnapshot).1.snapshotIndex ++
      ((alignedFollower.installDecodedCcsnSnapshot sentSnapshot).1.onMessageAt heartbeatAppend 0).1.log)
      sendingHistory := by
  have holder : alignedFollower.Compacted alignedFollower.log := by
    constructor <;> decide +kernel
  have origin : sendingLeader.Compacted sendingHistory := by
    constructor <;> decide +kernel
  have done : alignedFollower.installDecodedCcsnSnapshot sentSnapshot =
      ((alignedFollower.installDecodedCcsnSnapshot sentSnapshot).1, .ok ()) :=
    Prod.ext rfl (by decide +kernel)
  have same : installedHistory alignedFollower sentSnapshot sendingHistory alignedFollower.log =
      sendingHistory := by decide +kernel
  have answered : .send (heartbeatAnswer 2) ∈ ((alignedFollower.installDecodedCcsnSnapshot
      sentSnapshot).1.onMessageAt heartbeatAppend 0).2 := by decide +kernel
  refine ⟨same, ((install_extends_snapshot_iff holder origin rfl done).2
    (show .send heartbeatAppend ∈ sendingLeader.sendAppend 2 by decide +kernel) answered rfl rfl).2.mpr ?_⟩
  rw [same]
  rintro index ⟨⟨-, -, differ⟩, -⟩
  exact absurd rfl differ

/-- The third entry of term 1 survives a snapshot whose second entry is of term 2, and
is acknowledged to a leader that has no third entry. -/
theorem divergent_suffix_acknowledged :
    divergentFollower.Compacted divergentFollower.log ∧ sendingLeader.Compacted sendingHistory ∧
    (divergentFollower.installDecodedCcsnSnapshot sentSnapshot).2 = .ok () ∧ termOf divergentFollower.log 2 ≠ some 2 ∧
    (⟨1, 3, .app, []⟩ : Entry) ∈ (divergentFollower.installDecodedCcsnSnapshot sentSnapshot).1.log ∧
    .send heartbeatAppend ∈ sendingLeader.sendAppend 2 ∧
    .send (heartbeatAnswer 3) ∈ ((divergentFollower.installDecodedCcsnSnapshot
      sentSnapshot).1.onMessageAt heartbeatAppend 0).2 ∧ sendingHistory.length = 2 := by
  refine ⟨?_, ?_, ?_⟩
  · constructor <;> decide +kernel
  · constructor <;> decide +kernel
  · decide +kernel

end CrashCourse.Raft
