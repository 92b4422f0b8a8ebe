import CrashCourse.Consensus.Completeness

/-!
What a leader may assume about a follower, which acknowledges the end of its own log: it
must not be asked to match where a diverging rest would stay unnoticed.
-/

namespace Consensus
namespace History

variable {N E : Type*} {rules : Rules N E} {history : History N E}

variable {entry : E} {node follower other : N} {after : History N E} {term index : Nat}

theorem Inv.log_current (inv : Inv rules history) (member : entry ∈ history.log node)
    (current : rules.term entry = history.term node) :
    history.log node <+: history.leaderLog (history.term node) := by
  have sound := inv.leaders.log_sound node
  have nonempty : history.log node ≠ [] := by
    intro empty
    simp [empty] at member
  have last : rules.lastTerm (history.log node) = history.term node := by
    refine le_antisymm ?_ (current ▸ inv.leaders.sound_bound inv.ballots sound member)
    obtain ⟨pre, final, same⟩ := List.eq_nil_or_concat' _ |>.resolve_left nonempty
    rw [same, Rules.lastTerm_append]
    exact inv.leaders.log_bound (same ▸ by simp)
  exact last ▸ (sound.last nonempty).2

/-- What a leader's log gained carries its term, so a log that matches the longer one
only has such an entry. -/
theorem Inv.beyond_current (inv : Inv rules history) (reached : Inv rules after) (grows : Extends history after)
    (led : (history.elected term).isSome) {log : List E} (apart : ¬ log <+: history.leaderLog term)
    (inside : log <+: after.leaderLog term) : ∃ entry ∈ log, rules.term entry = term := by
  obtain ⟨⟨leader, start⟩, led⟩ := Option.isSome_iff_exists.mp led
  obtain ⟨before, wasSplit, _⟩ := inv.leaders.leaderLog_own led
  obtain ⟨own, split, current⟩ := reached.leaders.leaderLog_own (grows.elected led)
  obtain ⟨rest, longer⟩ : history.leaderLog term <+: log :=
    (List.prefix_or_prefix_of_prefix inside (grows.leaderLog term)).resolve_left apart
  obtain ⟨tail, whole⟩ := inside
  cases rest with
  | nil => exact absurd (by simp [← longer]) apart
  | cons entry rest =>
    refine ⟨entry, by simp [← longer], current entry ?_⟩
    rw [split, ← longer, wasSplit, List.append_assoc, List.append_assoc] at whole
    rw [← List.append_cancel_left whole]
    simp

/-- A match at `index` finds the follower's log no longer than the next entry, in step
with the leader, or diverging within the next entry. -/
def Probe (history : History N E) (term : Nat) (follower : N) (index : Nat) : Prop :=
  term ≤ history.term follower ∧ (history.term follower = term →
    (history.log follower).length ≤ index + 1 ∨ ((history.elected term).isSome ∧
      (history.log follower <+: history.leaderLog term ∨
        ¬ (history.log follower).take (index + 1) <+: history.leaderLog term)))

theorem Probe.of_follows (bound : term ≤ history.term follower)
    (follows : history.term follower = term → (history.elected term).isSome ∧ history.log follower <+: history.leaderLog term) :
    history.Probe term follower index :=
  ⟨bound, fun same => .inr ⟨(follows same).1, .inl (follows same).2⟩⟩

theorem Probe.step [DecidableEq N] (inv : Inv rules history) (step : Step rules history node after)
    (probe : history.Probe term follower index) : after.Probe term follower index := by
  have grows := step.grows inv.ballots inv.leaders
  have reached := step.inv inv
  refine ⟨probe.1.trans (grows.term follower), fun now => ?_⟩
  have same : history.term follower = term := le_antisymm (now ▸ grows.term follower) probe.1
  -- an action that moves the follower's log puts it in step with the leader
  have moved : after.log follower = history.log follower ∨ ((after.elected term).isSome ∧
      after.log follower <+: after.leaderLog term) := by
    by_cases actor : follower = node
    · subst actor
      cases step with
      | observe newer
      | request positive fresh older
      | grant free asked upToDate
      | elect open_ asked won
      | acknowledge led within matching
      | commit leads held current won => exact .inl rfl
      | append leads current valid certified =>
        refine .inr ⟨by rw [← same, grows.elected leads]; rfl, ?_⟩
        simp [History.append, ← same]
      | accept led follows matching keeps =>
        refine .inr ⟨by rw [← same, grows.elected led]; rfl, ?_⟩
        simpa [History.accept, ← same] using matching
    · cases step <;> simp [History.observe, History.request, History.grant, History.elect,
        History.append, History.accept, History.acknowledge, History.commit, actor]
  rcases moved with kept | ⟨led, follows⟩
  · rw [kept]
    rcases probe.2 same with short | ⟨led, rest⟩
    · exact .inl short
    refine .inr ⟨?_, ?_⟩
    · obtain ⟨leader, led⟩ := Option.isSome_iff_exists.mp led
      rw [grows.elected led]; rfl
    · rcases rest with follows | diverges
      · exact .inl (follows.trans (grows.leaderLog term))
      · by_contra both
        rw [not_or, not_not] at both
        obtain ⟨apart, inside⟩ := both
        obtain ⟨entry, member, current⟩ := inv.beyond_current reached grows led diverges inside
        rw [← kept] at apart member
        exact apart (now ▸ reached.log_current (List.mem_of_mem_take member) (current.trans now.symm))
  · exact .inr ⟨led, .inl follows⟩

/-- Where a leader may aim an append: past what it was elected with, or where the
follower reported. -/
def Aim (history : History N E) (term : Nat) (follower : N) (index : Nat) : Prop :=
  (∃ leader start, history.elected term = some (leader, start) ∧ start.length ≤ index) ∨
    history.Probe term follower index

theorem Aim.step [DecidableEq N] (inv : Inv rules history) (step : Step rules history node after)
    (aim : history.Aim term follower index) : after.Aim term follower index := by
  rcases aim with ⟨leader, start, led, short⟩ | probe
  · exact .inl ⟨leader, start, (step.grows inv.ballots inv.leaders).elected led, short⟩
  · exact .inr (probe.step inv step)

section Runs
variable [DecidableEq N] {after : History N E} {node follower : N} {term index : Nat}

theorem Steps.probe (inv : Inv rules history) (steps : Steps rules node history after)
    (probe : history.Probe term follower index) : after.Probe term follower index := by
  induction steps with
  | refl => exact probe
  | tail before step ih => exact ih.step (Steps.inv inv before) step

theorem Steps.aim (inv : Inv rules history) (steps : Steps rules node history after)
    (aim : history.Aim term follower index) : after.Aim term follower index := by
  induction steps with
  | refl => exact aim
  | tail before step ih => exact ih.step (Steps.inv inv before) step

theorem Steps.frame (steps : Steps rules node history after) {other : N} (apart : other ≠ node) :
    after.term other = history.term other ∧ after.vote other = history.vote other ∧
      after.log other = history.log other := by
  induction steps with
  | refl => exact ⟨rfl, rfl, rfl⟩
  | tail before step ih =>
    obtain ⟨term, vote, log⟩ := ih
    rw [← term, ← vote, ← log]
    cases step <;> simp [History.observe, History.request, History.grant, History.elect,
      History.append, History.accept, History.acknowledge, History.commit, apart]

end Runs

def Settles (history : History N E) (node : N) (entry : E) : Prop :=
  ∃ pre, pre ++ [entry] <+: history.log node ∧
    history.Decided (history.term node) (history.log node) (pre.length + 1)

theorem Settles.member (settles : history.Settles node entry) : entry ∈ history.log node := by
  obtain ⟨pre, inside, _⟩ := settles
  exact inside.subset (by simp)

theorem Settles.step [DecidableEq N] (inv : Inv rules history) (step : Step rules history node after)
    (settles : history.Settles other entry) : after.Settles other entry := by
  obtain ⟨pre, inside, decided⟩ := settles
  have grows := step.grows inv.ballots inv.leaders
  have taken : (history.log other).take (pre.length + 1) = pre ++ [entry] := by
    rw [take_of_start inside (by simp)]
    simp
  -- what is decided stays in the node's log
  have kept : pre ++ [entry] <+: after.log other := by
    by_cases actor : other = node
    · subst actor
      cases step with
      | observe newer
      | request positive fresh older
      | grant free asked upToDate
      | elect open_ asked won
      | acknowledge led within matching
      | commit leads held current won => exact inside
      | append leads current valid certified =>
        simpa [History.append] using inside.trans (List.prefix_append _ _)
      | accept led follows matching keeps =>
        have held := decided.in_leaderLog inv (by rw [led]; rfl)
        rw [taken] at held
        simpa [History.accept] using keeps _ inside held
    · rw [(Steps.frame (.single step) actor).2.2]
      exact inside
  exact ⟨pre, kept, ((decided.of_take (taken ▸ kept)).grow grows).mono (grows.term other)⟩

theorem Steps.settles [DecidableEq N] (inv : Inv rules history) (steps : Steps rules node history after)
    (settles : history.Settles other entry) : after.Settles other entry := by
  induction steps with
  | refl => exact settles
  | tail before step ih => exact ih.step (Steps.inv inv before) step

theorem Settles.unique (inv : Inv rules history) {left right : N} {pre other : List E} {entry' : E}
    (first : pre ++ [entry] <+: history.log left)
    (firstDecided : history.Decided (history.term left) (history.log left) (pre.length + 1))
    (second : other ++ [entry'] <+: history.log right)
    (secondDecided : history.Decided (history.term right) (history.log right) (other.length + 1))
    (same : pre.length = other.length) : entry = entry' := by
  rw [← same] at secondDecided
  have agree := firstDecided.agree inv secondDecided
  rw [take_of_start first (by simp), take_of_start second (by simp [same]),
    List.take_of_length_le (by simp), List.take_of_length_le (by simp [same])] at agree
  exact List.singleton_inj.mp (List.append_inj' agree rfl).2

section Follower
variable (inv : Inv rules history) {follower leader : N} {start sent : List E} {index : Nat}
  (led : history.elected (history.term follower) = some (leader, start))
include inv led

theorem Inv.current_of_longer {log : List E} (inside : log <+: history.leaderLog (history.term follower))
    (longer : start.length < log.length) : ∃ entry ∈ log, rules.term entry = history.term follower := by
  obtain ⟨own, split, current⟩ := inv.leaders.leaderLog_own led
  rw [split] at inside
  obtain ⟨rest, rfl⟩ : start <+: log :=
    List.prefix_of_prefix_length_le (List.prefix_append _ _) inside longer.le
  cases rest with
  | nil => simp at longer
  | cons entry rest =>
    refine ⟨entry, by simp, current entry ?_⟩
    exact ((List.prefix_append_right_inj start).mp inside).subset (by simp)

theorem Inv.follows_of_longer {log : List E} (held : log <+: history.log follower)
    (inside : log <+: history.leaderLog (history.term follower)) (longer : start.length < log.length) :
    history.log follower <+: history.leaderLog (history.term follower) := by
  obtain ⟨entry, member, current⟩ := inv.current_of_longer led inside longer
  exact inv.log_current (held.subset member) current

/-- A follower that has everything an aimed append carries is in step with the leader,
to the end of its log. -/
theorem Inv.follows_of_match (count : Nat) (aim : history.Aim (history.term follower) follower index)
    (inside : sent <+: history.leaderLog (history.term follower))
    (own : start.length < sent.length) (within : count ≤ sent.length) (reaches : index ≤ count)
    (carries : index < sent.length → index < count) (matching : sent.take count <+: history.log follower) :
    history.log follower <+: history.leaderLog (history.term follower) := by
  have taken : sent.take count <+: history.leaderLog (history.term follower) :=
    (List.take_prefix _ _).trans inside
  have length : (sent.take count).length = count := by simp [within]
  by_cases longer : start.length < count
  · exact inv.follows_of_longer led matching taken (by rw [length]; exact longer)
  have next : index < count := carries (by omega)
  rcases aim with ⟨other, start', led', short⟩ | probe
  · obtain ⟨rfl, rfl⟩ := Prod.mk.inj (Option.some.inj (led.symm.trans led'))
    omega
  rcases probe.2 rfl with short | ⟨_, follows | diverges⟩
  · rw [← matching.eq_of_length_le (by omega)]
    exact taken
  · exact follows
  · refine absurd (List.IsPrefix.trans ?_ taken) diverges
    rw [take_of_start matching (by omega)]
    exact List.take_prefix _ _

theorem Inv.probe_of_mismatch (own : start.length < sent.length) (within : index + 1 ≤ (history.log follower).length)
    (mismatch : index + 1 ≤ sent.length →
      ¬ (history.log follower).take (index + 1) <+: history.leaderLog (history.term follower)) :
    history.Probe (history.term follower) follower index := by
  refine ⟨le_rfl, fun _ => .inr ⟨by rw [led]; rfl, ?_⟩⟩
  by_contra both
  rw [not_or, not_not] at both
  obtain ⟨apart, matching⟩ := both
  by_cases short : index + 1 ≤ sent.length
  · exact mismatch short matching
  · refine apart (inv.follows_of_longer led (List.take_prefix _ _) matching ?_)
    rw [List.length_take, min_eq_left within]
    omega

end Follower
end History
end Consensus
