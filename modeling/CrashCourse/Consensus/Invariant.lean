import CrashCourse.Consensus.Protocol

/-!
What stays true of a history, in four groups: the ballots, the logs of the leaders, the acknowledgements and the
commits.
-/

namespace Consensus

variable {N E : Type*} {rules : Rules N E}

theorem take_of_start {short long : List E} (start : short <+: long) {count : Nat}
    (within : count ≤ short.length) : long.take count = short.take count := by
  obtain ⟨rest, rfl⟩ := start
  exact List.take_append_of_le_length within

theorem Rules.lastTerm_append (log : List E) (entry : E) : rules.lastTerm (log ++ [entry]) = rules.term entry := by
  simp [Rules.lastTerm]

namespace History

/-- Every entry stands in the log of its term's leader, after the same entries. -/
def Sound (history : History N E) (rules : Rules N E) (log : List E) : Prop :=
  ∀ pre entry, pre ++ [entry] <+: log → (history.elected (rules.term entry)).isSome ∧
    pre ++ [entry] <+: history.leaderLog (rules.term entry)

structure Ballots (rules : Rules N E) (history : History N E) : Prop where
  granted_bound : ∀ {term voter grant}, history.granted term voter = some grant →
    term ≤ history.term voter
  granted_vote : ∀ {voter grant}, history.granted (history.term voter) voter = some grant →
    history.vote voter = some grant.candidate
  vote_granted : ∀ {voter candidate}, history.vote voter = some candidate →
    ∃ grant, history.granted (history.term voter) voter = some grant ∧ grant.candidate = candidate
  granted_asked : ∀ {term voter grant}, history.granted term voter = some grant →
    ∃ log, history.requested term grant.candidate = some log ∧ rules.UpToDate log grant.log
  granted_late : ∀ {term voter grant}, history.granted term voter = some grant →
    grant.late = true → (history.elected term).isSome
  granted_sound : ∀ {term voter grant}, history.granted term voter = some grant →
    history.Sound rules grant.log
  requested_bound : ∀ {term node log}, history.requested term node = some log →
    term ≤ history.term node
  requested_positive : ∀ {term node log}, history.requested term node = some log → 0 < term
  requested_older : ∀ {term node log}, history.requested term node = some log →
    ∀ entry ∈ log, rules.term entry < term
  requested_sound : ∀ {term node log}, history.requested term node = some log →
    history.Sound rules log
  requested_log : ∀ {node log}, history.requested (history.term node) node = some log →
    history.elected (history.term node) = none → history.log node = log

/-- The votes that were cast before the term had a leader. -/
def earlyVoters (history : History N E) (term : Nat) (candidate : N) : Set N :=
  {voter | ∃ grant, history.granted term voter = some grant ∧ grant.candidate = candidate ∧
    grant.late = false}

structure Leaders (rules : Rules N E) (history : History N E) : Prop where
  elected_asked : ∀ {term node log}, history.elected term = some (node, log) →
    history.requested term node = some log
  elected_won : ∀ {term node log}, history.elected term = some (node, log) →
    rules.quorum log (history.earlyVoters term node)
  leaderLog_own : ∀ {term node log}, history.elected term = some (node, log) →
    ∃ own, history.leaderLog term = log ++ own ∧ ∀ entry ∈ own, rules.term entry = term
  leaderLog_log : ∀ {node log}, history.elected (history.term node) = some (node, log) →
    history.log node = history.leaderLog (history.term node)
  leaderLog_none : ∀ {term}, history.elected term = none → history.leaderLog term = []
  leaderLog_valid : ∀ term, rules.valid (history.leaderLog term)
  leaderLog_sound : ∀ term, history.Sound rules (history.leaderLog term)
  log_sound : ∀ node, history.Sound rules (history.log node)
  log_bound : ∀ {node entry}, entry ∈ history.log node → rules.term entry ≤ history.term node

structure Acks (history : History N E) : Prop where
  acked_le : ∀ term node, history.acked term node ≤ (history.leaderLog term).length
  acked_bound : ∀ {term node}, 0 < history.acked term node → term ≤ history.term node
  /-- An acknowledged prefix is kept as long as every later leader has it. -/
  retained : ∀ {term node index}, index ≤ history.acked term node →
    (∀ later, term < later → later ≤ history.term node →
      history.Holds later ((history.leaderLog term).take index)) →
    (history.leaderLog term).take index <+: history.log node
  granted_retained : ∀ {later voter grant term index}, history.granted later voter = some grant →
    term < later → index ≤ history.acked term voter →
    (∀ between, term < between → between < later →
      history.Holds between ((history.leaderLog term).take index)) →
    (grant.late = true → history.Holds later ((history.leaderLog term).take index)) →
    (history.leaderLog term).take index <+: grant.log

/-- The leader of the commit's term held its log and a quorum held the prefix. -/
structure Backed (rules : Rules N E) (history : History N E) (commit : Commit E) : Prop where
  led : ∃ node start, history.elected commit.term = some (node, start) ∧ start <+: commit.log
  reached : commit.log <+: history.leaderLog commit.term
  current : ∃ pre entry, pre ++ [entry] <+: commit.log ∧ pre.length + 1 = commit.index ∧
    rules.term entry = commit.term
  won : rules.quorum commit.log (history.holders commit.term commit.index)

/-- Every commit is backed, and its configuration was certified by an earlier one. -/
def Supported (rules : Rules N E) (history : History N E) : List (Commit E) → Prop
  | [] => True
  | commit :: earlier => Backed rules history commit ∧
      history.Certified rules earlier commit.term commit.log ∧ Supported rules history earlier

structure Commits (rules : Rules N E) (history : History N E) : Prop where
  supported : Supported rules history history.commits
  certified : ∀ {term log}, log <+: history.leaderLog term →
    history.Certified rules history.commits term log
  complete : ∀ {commit}, commit ∈ history.commits → ∀ {later}, commit.term < later →
    history.Holds later ((history.leaderLog commit.term).take commit.index)

structure Inv (rules : Rules N E) (history : History N E) : Prop where
  ballots : Ballots rules history
  leaders : Leaders rules history
  acks : Acks history
  commits : Commits rules history

structure Extends (before after : History N E) : Prop where
  term : ∀ node, before.term node ≤ after.term node
  requested : ∀ {term node log}, before.requested term node = some log →
    after.requested term node = some log
  granted : ∀ {term node grant}, before.granted term node = some grant →
    after.granted term node = some grant
  elected : ∀ {term leader}, before.elected term = some leader → after.elected term = some leader
  leaderLog : ∀ term, before.leaderLog term <+: after.leaderLog term
  acked : ∀ term node, before.acked term node ≤ after.acked term node
  commits : before.commits <:+ after.commits

namespace Extends
variable {before after last : History N E}

theorem refl (history : History N E) : Extends history history :=
  ⟨fun _ => le_rfl, id, id, id, fun _ => List.prefix_rfl, fun _ _ => le_rfl, List.suffix_rfl⟩

theorem trans (first : Extends before after) (second : Extends after last) : Extends before last where
  term node := (first.term node).trans (second.term node)
  requested was := second.requested (first.requested was)
  granted was := second.granted (first.granted was)
  elected was := second.elected (first.elected was)
  leaderLog term := (first.leaderLog term).trans (second.leaderLog term)
  acked term node := (first.acked term node).trans (second.acked term node)
  commits := first.commits.trans second.commits

theorem sound (grows : Extends before after) {log : List E} (was : before.Sound rules log) :
    after.Sound rules log := by
  intro pre entry inside
  obtain ⟨led, matching⟩ := was pre entry inside
  obtain ⟨leader, led⟩ := Option.isSome_iff_exists.mp led
  exact ⟨by rw [grows.elected led]; rfl, matching.trans (grows.leaderLog _)⟩

theorem holds (grows : Extends before after) {term : Nat} {start : List E}
    (now : after.Holds term start) : before.Holds term start :=
  fun leader log led => now leader log (grows.elected led)

theorem voters (grows : Extends before after) (term : Nat) (node : N) :
    before.voters term node ⊆ after.voters term node :=
  fun _ ⟨grant, granted, same⟩ => ⟨grant, grows.granted granted, same⟩

theorem earlyVoters (grows : Extends before after) (term : Nat) (node : N) :
    before.earlyVoters term node ⊆ after.earlyVoters term node :=
  fun _ ⟨grant, granted, early⟩ => ⟨grant, grows.granted granted, early⟩

theorem holders (grows : Extends before after) (term index : Nat) :
    before.holders term index ⊆ after.holders term index :=
  fun node within => within.trans (grows.acked term node)

theorem leaderLog_take (grows : Extends before after) {term index : Nat}
    (within : index ≤ (before.leaderLog term).length) :
    (after.leaderLog term).take index = (before.leaderLog term).take index :=
  take_of_start (grows.leaderLog term) within

theorem certified (grows : Extends before after) {earlier later : List (Commit E)}
    (more : earlier ⊆ later) {term : Nat} {log : List E}
    (was : before.Certified rules earlier term log) : after.Certified rules later term log := by
  rcases was with zero | ⟨commit, member, older, within, matching⟩
  · exact .inl zero
  · exact .inr ⟨commit, more member, older, within, matching.trans (grows.leaderLog _)⟩

theorem backed (grows : Extends before after) {commit : Commit E}
    (was : Backed rules before commit) : Backed rules after commit where
  led := by
    obtain ⟨node, start, led, inside⟩ := was.led
    exact ⟨node, start, grows.elected led, inside⟩
  reached := was.reached.trans (grows.leaderLog _)
  current := was.current
  won := rules.quorum_mono (grows.holders _ _) was.won

theorem supported (grows : Extends before after) :
    ∀ {commits : List (Commit E)}, Supported rules before commits → Supported rules after commits
  | [], _ => trivial
  | _ :: _, ⟨backed, certified, rest⟩ =>
    ⟨grows.backed backed, grows.certified (List.Subset.refl _) certified, grows.supported rest⟩

end Extends

theorem Certified.mono {history : History N E} {commits : List (Commit E)} {term later : Nat}
    {log : List E} (older : term ≤ later) (was : history.Certified rules commits term log) :
    history.Certified rules commits later log := by
  rcases was with zero | ⟨commit, member, bound, rest⟩
  · exact .inl zero
  · exact .inr ⟨commit, member, bound.trans older, rest⟩

namespace Sound
variable {history : History N E} {log other : List E}

theorem of_start (sound : history.Sound rules log) (start : other <+: log) : history.Sound rules other :=
  fun pre entry inside => sound pre entry (inside.trans start)

theorem nil : history.Sound rules [] := by
  intro pre entry inside
  simp at inside

section
variable (sound : history.Sound rules log)
include sound

theorem last (nonempty : log ≠ []) : (history.elected (rules.lastTerm log)).isSome ∧
      log <+: history.leaderLog (rules.lastTerm log) := by
  obtain ⟨pre, entry, rfl⟩ := List.eq_nil_or_concat' log |>.resolve_left nonempty
  rw [Rules.lastTerm_append]
  exact sound pre entry List.prefix_rfl

theorem append {entry : E} (led : (history.elected (rules.term entry)).isSome)
    (matching : log ++ [entry] <+: history.leaderLog (rules.term entry)) : history.Sound rules (log ++ [entry]) := by
  intro pre last inside
  rcases List.prefix_concat_iff.mp inside with same | inside
  · obtain ⟨samePre, sameLast⟩ := List.append_inj' same rfl
    obtain rfl := List.singleton_inj.mp sameLast
    subst samePre
    exact ⟨led, matching⟩
  · exact sound pre last inside

theorem here {position : Nat} {entry : E}
    (at_ : log[position]? = some entry) : (history.elected (rules.term entry)).isSome ∧
      log.take (position + 1) <+: history.leaderLog (rules.term entry) := by
  have taken : log.take (position + 1) = log.take position ++ [entry] := by
    rw [List.take_add_one, at_]; rfl
  rw [taken]
  exact sound _ _ (taken ▸ List.take_prefix _ _)

/-- Log matching: sound logs with entries of one term at one place agree up to it. -/
theorem agree (sound' : history.Sound rules other)
    {position : Nat} {entry entry' : E} (at_ : log[position]? = some entry)
    (at' : other[position]? = some entry') (same : rules.term entry = rules.term entry') :
    log.take (position + 1) = other.take (position + 1) := by
  obtain ⟨inside, _⟩ := List.getElem?_eq_some_iff.mp at_
  obtain ⟨inside', _⟩ := List.getElem?_eq_some_iff.mp at'
  have length : (log.take (position + 1)).length = (other.take (position + 1)).length := by
    rw [List.length_take, List.length_take]
    omega
  exact (List.prefix_of_prefix_length_le (sound.here at_).2 (same ▸ (sound'.here at').2)
    length.le).eq_of_length length

theorem certified (commits : Commits rules history) :
    history.Certified rules history.commits (rules.lastTerm log) log := by
  by_cases nonempty : log = []
  · subst nonempty
    exact commits.certified (by simp)
  · exact commits.certified (sound.last nonempty).2

end

end Sound

namespace Leaders
variable {history : History N E} (leaders : Leaders rules history) (ballots : Ballots rules history)
include leaders ballots

theorem leaderLog_bound {term : Nat} {entry : E} (member : entry ∈ history.leaderLog term) :
    rules.term entry ≤ term := by
  cases led : history.elected term with
  | none => simp [leaders.leaderLog_none led] at member
  | some leader =>
    obtain ⟨own, split, current⟩ := leaders.leaderLog_own led
    rw [split, List.mem_append] at member
    rcases member with member | member
    · exact (ballots.requested_older (leaders.elected_asked led) entry member).le
    · exact (current entry member).le

theorem sound_bound {log : List E} (sound : history.Sound rules log) {entry : E}
    (member : entry ∈ log) : rules.term entry ≤ rules.lastTerm log := by
  have nonempty : log ≠ [] := by rintro rfl; simp at member
  obtain ⟨_, matching⟩ := sound.last nonempty
  exact leaders.leaderLog_bound ballots (matching.subset member)

theorem sound_positive {log : List E} (sound : history.Sound rules log) {entry : E}
    (member : entry ∈ log) : 0 < rules.term entry := by
  obtain ⟨position, at_⟩ := List.mem_iff_getElem?.mp member
  obtain ⟨⟨leader, start⟩, led⟩ := Option.isSome_iff_exists.mp (sound.here at_).1
  exact ballots.requested_positive (leaders.elected_asked led)

omit ballots in
theorem sound_valid {log : List E} (sound : history.Sound rules log) : rules.valid log := by
  by_cases nonempty : log = []
  · rw [nonempty]; exact rules.valid_nil
  · exact rules.valid_of_start (sound.last nonempty).2 (leaders.leaderLog_valid _)

end Leaders
end History
end Consensus
