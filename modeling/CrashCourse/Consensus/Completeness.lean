import CrashCourse.Consensus.Preservation

/-!
Leader completeness. Quorums of different configurations meet, because each log holds the
anchored prefix of the other, and the common node kept the committed prefix until it
voted.
-/

namespace Consensus
namespace History

variable {N E : Type*} {rules : Rules N E} {history : History N E}

theorem Backed.index_le {commit : Commit E} (backed : Backed rules history commit) :
    commit.index ≤ commit.log.length := by
  obtain ⟨pre, entry, inside, here, _⟩ := backed.current
  have := inside.length_le
  simp only [List.length_append, List.length_singleton] at this
  omega

theorem Backed.take_eq {commit : Commit E} (backed : Backed rules history commit) :
    (history.leaderLog commit.term).take commit.index = commit.log.take commit.index :=
  take_of_start backed.reached backed.index_le

theorem Backed.ends {commit : Commit E} (backed : Backed rules history commit) :
    ∃ pre entry, (history.leaderLog commit.term).take commit.index = pre ++ [entry] ∧
      rules.term entry = commit.term := by
  obtain ⟨pre, entry, inside, here, current⟩ := backed.current
  refine ⟨pre, entry, ?_, current⟩
  rw [backed.take_eq, ← here, take_of_start inside (by simp)]
  simp

theorem Supported.backed {commit : Commit E} :
    ∀ {commits : List (Commit E)}, Supported rules history commits → commit ∈ commits →
      Backed rules history commit
  | first :: rest, ⟨backed, _, supported⟩, member => by
      rcases List.mem_cons.mp member with rfl | member
      · exact backed
      · exact supported.backed member

theorem Certified.held {commits : List (Commit E)} {term later : Nat} {log other : List E}
    (certified : history.Certified rules commits term log) (older : term < later)
    (held : ∀ commit ∈ commits, commit.term < later →
      (history.leaderLog commit.term).take commit.index <+: other) : log.take (rules.anchor log) <+: other := by
  rcases certified with zero | ⟨commit, member, bound, within, matching⟩
  · simp [zero]
  · refine List.IsPrefix.trans ?_ (held commit member (bound.trans_lt older))
    rw [List.prefix_take_iff]
    exact ⟨matching, (List.length_take_le _ _).trans within⟩

theorem Ballots.requested_lastTerm (ballots : Ballots rules history) {term : Nat} {node : N}
    {log : List E} (asked : history.requested term node = some log) : rules.lastTerm log < term := by
  rcases List.eq_nil_or_concat' log with rfl | ⟨pre, entry, rfl⟩
  · simpa [Rules.lastTerm] using ballots.requested_positive asked
  · rw [Rules.lastTerm_append]
    exact ballots.requested_older asked entry (by simp)

section Candidate
variable (ballots : Ballots rules history) (leaders : Leaders rules history)
include ballots leaders

theorem start_within {log start : List E} {leader : N} (sound : history.Sound rules log)
    (nonempty : log ≠ []) (led : history.elected (rules.lastTerm log) = some (leader, start)) : start <+: log := by
  obtain ⟨own, split, _⟩ := leaders.leaderLog_own led
  have inside : start <+: history.leaderLog (rules.lastTerm log) := split ▸ List.prefix_append _ _
  rcases List.prefix_or_prefix_of_prefix inside (sound.last nonempty).2 with done | short
  · exact done
  · obtain ⟨pre, entry, rfl⟩ := List.eq_nil_or_concat' log |>.resolve_left nonempty
    have older := ballots.requested_older (leaders.elected_asked led) entry (short.subset (by simp))
    rw [Rules.lastTerm_append] at older
    omega

/-- A candidate as up to date as a voter has the voter's prefix, once every leader in
between has it. -/
theorem upToDate_carries {log voted pre : List E} {entry : E} {term later : Nat} {candidate : N}
    (asked : history.requested later candidate = some log) (votedSound : history.Sound rules voted)
    (upToDate : rules.UpToDate log voted) (held : pre ++ [entry] <+: voted) (current : rules.term entry = term)
    (between : ∀ middle, term < middle → middle < later → history.Holds middle (pre ++ [entry])) :
    pre ++ [entry] <+: log := by
  have sound := ballots.requested_sound asked
  have votedNonempty : voted ≠ [] := by
    rintro rfl
    simp at held
  have bound : term ≤ rules.lastTerm voted :=
    current ▸ leaders.sound_bound ballots votedSound (held.subset (by simp))
  rcases upToDate with newer | ⟨same, shorter⟩
  · have nonempty : log ≠ [] := by
      rintro rfl
      simp [Rules.lastTerm] at newer
    obtain ⟨⟨leader, start⟩, led⟩ := Option.isSome_iff_exists.mp (sound.last nonempty).1
    have below : rules.lastTerm log < later := by
      obtain ⟨_, last, rfl⟩ := List.eq_nil_or_concat' log |>.resolve_left nonempty
      rw [Rules.lastTerm_append]
      exact ballots.requested_older asked last (by simp)
    exact (between _ (bound.trans_lt newer) below leader start led).trans
      (start_within ballots leaders sound nonempty led)
  · have nonempty : log ≠ [] := by
      rintro rfl
      exact votedNonempty (List.length_eq_zero_iff.mp (Nat.le_zero.mp shorter))
    refine held.trans (List.prefix_of_prefix_length_le ?_ (sound.last nonempty).2 shorter)
    rw [← same]
    exact (votedSound.last votedNonempty).2

end Candidate

section Carries
variable (ballots : Ballots rules history) (leaders : Leaders rules history) (acks : Acks history)
include ballots leaders acks

/-- A candidate of a later term holds a commit, if it holds those that certify its
configuration and every leader in between holds it. -/
theorem commit_carries {commit : Commit E} {earlier commits : List (Commit E)} {later : Nat}
    {candidate : N} {log : List E} {votes : Set N} (backed : Backed rules history commit)
    (certified : history.Certified rules earlier commit.term commit.log)
    (newer : commit.term < later) (asked : history.requested later candidate = some log)
    (logCertified : history.Certified rules commits (rules.lastTerm log) log) (won : rules.quorum log votes)
    (voted : ∀ voter ∈ votes, ∃ grant, history.granted later voter = some grant ∧
      grant.candidate = candidate ∧ (grant.late = true →
        history.Holds later ((history.leaderLog commit.term).take commit.index)))
    (earlierHeld : ∀ other ∈ earlier, other.term < later →
      (history.leaderLog other.term).take other.index <+: log)
    (between : ∀ middle, commit.term < middle → middle < later →
      history.Holds middle ((history.leaderLog commit.term).take commit.index))
    (past : ∀ other ∈ commits, other.term < commit.term →
      history.Holds commit.term ((history.leaderLog other.term).take other.index)) :
    (history.leaderLog commit.term).take commit.index <+: log := by
  have committed : (history.leaderLog commit.term).take commit.index <+: commit.log := by
    rw [backed.take_eq]
    exact List.take_prefix _ _
  have leftAnchor : commit.log.take (rules.anchor commit.log) <+: log :=
    certified.held newer earlierHeld
  -- the candidate's own anchor: inside the leader's log, unless the log already has the commit
  have rightAnchor : (history.leaderLog commit.term).take commit.index <+: log ∨
      log.take (rules.anchor log) <+: commit.log := by
    rcases logCertified with zero | ⟨other, member, bound, within, matching⟩
    · exact .inr (by simp [zero])
    have below : other.term < later := bound.trans_lt (ballots.requested_lastTerm asked)
    rcases lt_trichotomy other.term commit.term with older | same | after
    · obtain ⟨node, start, led, inside⟩ := backed.led
      refine .inr (List.IsPrefix.trans ?_ ((past other member older node start led).trans inside))
      rw [List.prefix_take_iff]
      exact ⟨matching, (List.length_take_le _ _).trans within⟩
    · rw [same] at matching
      rcases List.prefix_or_prefix_of_prefix matching backed.reached with inside | beyond
      · exact .inr inside
      · exact .inl (committed.trans (beyond.trans (List.take_prefix _ _)))
    · cases led : history.elected other.term with
      | none =>
        rw [leaders.leaderLog_none led, List.prefix_nil] at matching
        exact .inr (by simp [matching])
      | some leader =>
        obtain ⟨own, split, _⟩ := leaders.leaderLog_own led
        have held : (history.leaderLog commit.term).take commit.index <+:
            history.leaderLog other.term :=
          (between _ after below leader.1 leader.2 led).trans (split ▸ List.prefix_append _ _)
        rcases List.prefix_or_prefix_of_prefix held matching with inside | beyond
        · exact .inl (inside.trans (List.take_prefix _ _))
        · exact .inr (beyond.trans committed)
  rcases rightAnchor with done | rightAnchor
  · exact done
  obtain ⟨voter, holder, vote⟩ := rules.overlap
    (rules.valid_of_start backed.reached (leaders.leaderLog_valid _))
    (leaders.sound_valid (ballots.requested_sound asked)) leftAnchor rightAnchor backed.won won
  obtain ⟨grant, granted, same, late⟩ := voted voter vote
  have kept := acks.granted_retained granted newer holder between late
  obtain ⟨asked', requested, upToDate⟩ := ballots.granted_asked granted
  obtain rfl : asked' = log := by
    rw [same, asked] at requested
    exact (Option.some.inj requested).symm
  obtain ⟨pre, entry, ends, current⟩ := backed.ends
  rw [ends] at kept between ⊢
  exact upToDate_carries ballots leaders asked (ballots.granted_sound granted) upToDate kept current
    between

end Carries

namespace Inv
variable (inv : Inv rules history)
include inv

theorem candidate_complete {term : Nat} {candidate : N} {log : List E}
    (asked : history.requested term candidate = some log) (won : rules.quorum log (history.voters term candidate)) :
    ∀ commit ∈ history.commits, commit.term < term →
      (history.leaderLog commit.term).take commit.index <+: log := by
  have certified := (inv.ballots.requested_sound asked).certified inv.commits
  -- induction on the commits, oldest first: each needs the ones that certify it
  suffices step : ∀ commits, commits <:+ history.commits → Supported rules history commits →
      ∀ commit ∈ commits, commit.term < term →
        (history.leaderLog commit.term).take commit.index <+: log from
    step _ List.suffix_rfl inv.commits.supported
  intro commits
  induction commits with
  | nil => simp
  | cons first earlier ih =>
    rintro part ⟨backed, backedCertified, supported⟩ commit member newer
    have earlierHeld := ih ((List.suffix_cons _ _).trans part) supported
    rcases List.mem_cons.mp member with rfl | member
    · have listed : commit ∈ history.commits := part.subset List.mem_cons_self
      refine commit_carries inv.ballots inv.leaders inv.acks backed backedCertified newer asked
        certified won ?_ earlierHeld (fun middle above _ => inv.commits.complete listed above)
        fun other known older => inv.commits.complete known older
      rintro voter ⟨grant, granted, same⟩
      exact ⟨grant, granted, same, fun _ => inv.commits.complete listed newer⟩
    · exact earlierHeld commit member newer

theorem election_unique {term : Nat} {candidate leader : N} {log start : List E}
    (asked : history.requested term candidate = some log) (won : rules.quorum log (history.voters term candidate))
    (led : history.elected term = some (leader, start)) : leader = candidate := by
  have leaderAsked := inv.leaders.elected_asked led
  have sound := inv.ballots.requested_sound asked
  have leaderSound := inv.ballots.requested_sound leaderAsked
  have left : start.take (rules.anchor start) <+: log :=
    (leaderSound.certified inv.commits).held
      (inv.ballots.requested_lastTerm leaderAsked)
      (inv.candidate_complete asked won)
  have right : log.take (rules.anchor log) <+: start :=
    (sound.certified inv.commits).held (inv.ballots.requested_lastTerm asked)
      fun commit member older => inv.commits.complete member older leader start led
  obtain ⟨voter, ⟨early, granted, forLeader, _⟩, grant, granted', forCandidate⟩ := rules.overlap
    (inv.leaders.sound_valid leaderSound) (inv.leaders.sound_valid sound) left right
    (inv.leaders.elected_won led) won
  rw [granted] at granted'
  obtain rfl := Option.some.inj granted'
  exact forLeader.symm.trans forCandidate

end Inv

section Steps
variable {after : History N E} {node : N}

theorem Commits.extend (commits : Commits rules history) (grows : Extends history after)
    (sameElected : after.elected = history.elected)
    (sameLog : after.leaderLog = history.leaderLog) (sameCommits : after.commits = history.commits) :
    Commits rules after where
  supported := by
    rw [sameCommits]
    exact grows.supported commits.supported
  certified {term log} inside := by
    rw [sameLog] at inside
    rw [sameCommits]
    exact grows.certified (List.Subset.refl _) (commits.certified inside)
  complete {commit} member {later} newer := by
    rw [sameCommits] at member
    rw [sameLog]
    intro leader start led
    exact commits.complete member newer leader start (sameElected ▸ led)

theorem Commits.take_eq (commits : Commits rules history) (grows : Extends history after)
    {commit : Commit E} (member : commit ∈ history.commits) : (after.leaderLog commit.term).take commit.index =
      (history.leaderLog commit.term).take commit.index :=
  have backed := commits.supported.backed member
  grows.leaderLog_take (backed.index_le.trans backed.reached.length_le)

variable [DecidableEq N]

theorem Step.commits (inv : Inv rules history) (step : Step rules history node after) : Commits rules after := by
  have grows := step.grows inv.ballots inv.leaders
  have commits := inv.commits
  cases step with
  | observe newer
  | request positive fresh older
  | grant free asked upToDate
  | accept led follows matching keeps
  | acknowledge led within matching => exact commits.extend grows rfl rfl rfl
  | elect open_ asked won =>
    refine ⟨grows.supported commits.supported, ?_, ?_⟩
    · intro term log inside
      refine grows.certified (List.Subset.refl _) ?_
      by_cases here : term = history.term node
      · subst here
        simp only [History.elect, Function.update_self] at inside
        have sound := (inv.leaders.log_sound node).of_start inside
        refine (sound.certified commits).mono ?_
        rcases List.eq_nil_or_concat' log with rfl | ⟨pre, entry, rfl⟩
        · simp [Rules.lastTerm]
        · rw [Rules.lastTerm_append]
          exact inv.leaders.log_bound (inside.subset (by simp))
      · exact commits.certified (by simpa [History.elect, here] using inside)
    · intro commit member later newer leader start led
      rw [commits.take_eq grows member]
      by_cases here : later = history.term node
      · subst here
        simp only [History.elect, Function.update_self, Option.some.injEq, Prod.mk.injEq] at led
        obtain ⟨rfl, rfl⟩ := led
        exact inv.candidate_complete asked won commit member newer
      · exact commits.complete member newer leader start
          (by simpa [History.elect, here] using led)
  | @append entry start leads current valid certified =>
    refine ⟨grows.supported commits.supported, ?_, ?_⟩
    · intro term log inside
      refine grows.certified (List.Subset.refl _) ?_
      by_cases here : term = history.term node
      · subst here
        simp only [History.append, Function.update_self] at inside
        rcases List.prefix_concat_iff.mp inside with rfl | inside
        · exact certified
        · exact commits.certified (inv.leaders.leaderLog_log leads ▸ inside)
      · exact commits.certified (by simpa [History.append, here] using inside)
    · intro commit member later newer
      rw [commits.take_eq grows member]
      exact commits.complete member newer
  | @commit start pre entry leads held current won =>
    have sameLog := inv.leaders.leaderLog_log leads
    have backed : Backed rules history
        ⟨history.term node, pre.length + 1, history.log node⟩ := by
      obtain ⟨own, split, _⟩ := inv.leaders.leaderLog_own leads
      refine ⟨⟨node, start, leads, ?_⟩, ?_, ⟨pre, entry, held, rfl, current⟩, won⟩
      · rw [sameLog, split]
        exact List.prefix_append _ _
      · rw [sameLog]
    have certified : history.Certified rules history.commits (history.term node)
        (history.log node) := commits.certified (by rw [sameLog])
    have complete : ∀ later, history.term node < later → history.Holds later
        ((history.leaderLog (history.term node)).take (pre.length + 1)) := by
      intro later
      induction later using Nat.strong_induction_on with
      | _ later ih =>
        intro newer leader log led
        have asked := inv.leaders.elected_asked led
        refine commit_carries inv.ballots inv.leaders inv.acks backed certified newer asked
          ((inv.ballots.requested_sound asked).certified commits) (inv.leaders.elected_won led)
          ?_ (fun other member older => commits.complete member older leader log led)
          (fun middle above below => ih middle below above)
          fun other member older => commits.complete member older
        rintro voter ⟨grant, granted, same, early⟩
        exact ⟨grant, granted, same, by simp [early]⟩
    refine ⟨⟨grows.backed backed, grows.certified (List.Subset.refl _) certified,
      grows.supported commits.supported⟩, ?_, ?_⟩
    · intro term log inside
      exact grows.certified (List.subset_cons_self _ _) (commits.certified inside)
    · intro other member later newer
      rcases List.mem_cons.mp member with rfl | member
      · exact complete later newer
      · exact commits.complete member newer

theorem Step.inv (inv : Inv rules history) (step : Step rules history node after) : Inv rules after where
  ballots := step.ballots inv.ballots inv.leaders
  leaders := step.leaders inv.ballots inv.leaders
  acks := step.acks inv.ballots inv.leaders inv.acks
  commits := step.commits inv

theorem Steps.inv (inv : Inv rules history) (steps : Steps rules node history after) : Inv rules after := by
  induction steps with
  | refl => exact inv
  | tail _ step ih => exact step.inv ih

theorem Steps.grows (inv : Inv rules history) (steps : Steps rules node history after) : Extends history after := by
  induction steps with
  | refl => exact Extends.refl history
  | tail before step ih =>
    have reached := Steps.inv inv before
    exact ih.trans (step.grows reached.ballots reached.leaders)

end Steps

/-- The first `index` entries of the log are committed, by a leader of `term` or
before. -/
def Decided (history : History N E) (term : Nat) (log : List E) (index : Nat) : Prop :=
  index ≤ log.length ∧ (index = 0 ∨ ∃ commit ∈ history.commits, commit.term ≤ term ∧
    index ≤ commit.index ∧ log.take index <+: history.leaderLog commit.term)

namespace Decided
variable {after : History N E} {term later index : Nat} {log other : List E}

theorem zero : history.Decided term log 0 := ⟨Nat.zero_le _, .inl rfl⟩

section
variable (decided : history.Decided term log index)
include decided

theorem grow (grows : Extends history after) :
    after.Decided term log index := by
  refine ⟨decided.1, decided.2.imp id ?_⟩
  rintro ⟨commit, member, bound, within, matching⟩
  exact ⟨commit, grows.commits.subset member, bound, within, matching.trans (grows.leaderLog _)⟩

theorem mono (bound : term ≤ later) : history.Decided later log index := by
  refine ⟨decided.1, decided.2.imp id ?_⟩
  rintro ⟨commit, member, older, rest⟩
  exact ⟨commit, member, older.trans bound, rest⟩

theorem less {count : Nat} (below : count ≤ index) :
    history.Decided term log count := by
  refine ⟨below.trans decided.1, ?_⟩
  rcases decided.2 with zero | ⟨commit, member, bound, within, matching⟩
  · exact .inl (by omega)
  · exact .inr ⟨commit, member, bound, below.trans within,
      (List.take_prefix_take_left below).trans matching⟩

theorem of_take (shared : log.take index <+: other) :
    history.Decided term other index := by
  have whole : (log.take index).length = index := by simp [decided.1]
  have same : other.take index = log.take index := by
    rw [take_of_start shared whole.ge, List.take_take, min_self]
  refine ⟨whole ▸ shared.length_le, decided.2.imp id ?_⟩
  rintro ⟨commit, member, bound, within, matching⟩
  exact ⟨commit, member, bound, within, same ▸ matching⟩

theorem of_start (start : log <+: other) :
    history.Decided term other index :=
  decided.of_take ((List.take_prefix _ _).trans start)

end

theorem in_leaderLog (inv : Inv rules history) (decided : history.Decided term log index)
    (led : (history.elected term).isSome) : log.take index <+: history.leaderLog term := by
  rcases decided.2 with rfl | ⟨commit, member, bound, within, matching⟩
  · simp
  rcases bound.lt_or_eq with older | rfl
  · obtain ⟨⟨leader, start⟩, led⟩ := Option.isSome_iff_exists.mp led
    obtain ⟨own, split, _⟩ := inv.leaders.leaderLog_own led
    have held := inv.commits.complete member older leader start led
    rw [split]
    refine List.IsPrefix.trans ?_ (held.trans (List.prefix_append _ _))
    rw [List.prefix_take_iff]
    exact ⟨matching, (List.length_take_le _ _).trans within⟩
  · exact matching

theorem in_start (inv : Inv rules history) (decided : history.Decided term log index)
    (newer : term < later) : history.Holds later (log.take index) := by
  intro leader start led
  rcases decided.2 with rfl | ⟨commit, member, bound, within, matching⟩
  · simp
  · refine List.IsPrefix.trans ?_
      (inv.commits.complete member (bound.trans_lt newer) leader start led)
    rw [List.prefix_take_iff]
    exact ⟨matching, (List.length_take_le _ _).trans within⟩

theorem agree (inv : Inv rules history) (first : history.Decided term log index)
    (second : history.Decided later other index) : log.take index = other.take index := by
  rcases first.2 with rfl | ⟨commit, member, _, within, matching⟩
  · simp
  rcases second.2 with rfl | ⟨commit', member', _, within', matching'⟩
  · simp
  -- both lie in the log of the later of the two leaders
  have led : (history.elected (max commit.term commit'.term)).isSome := by
    rcases max_choice commit.term commit'.term with same | same
    · obtain ⟨_, _, led, _⟩ := (inv.commits.supported.backed member).led
      rw [same, led]; rfl
    · obtain ⟨_, _, led, _⟩ := (inv.commits.supported.backed member').led
      rw [same, led]; rfl
  have left : history.Decided (max commit.term commit'.term) log index :=
    ⟨first.1, .inr ⟨commit, member, le_max_left _ _, within, matching⟩⟩
  have right : history.Decided (max commit.term commit'.term) other index :=
    ⟨second.1, .inr ⟨commit', member', le_max_right _ _, within', matching'⟩⟩
  have same : (log.take index).length = (other.take index).length := by
    simp [first.1, second.1]
  exact (List.prefix_of_prefix_length_le (left.in_leaderLog inv led) (right.in_leaderLog inv led)
    same.le).eq_of_length same

end Decided

theorem Inv.init (anchored : rules.anchor [] = 0) : Inv rules (History.init : History N E) where
  ballots := by
    constructor <;> simp [History.init]
  leaders := by
    constructor <;> simp [History.init, rules.valid_nil, Sound.nil]
  acks := by
    constructor <;> simp [History.init]
  commits := by
    constructor
    · trivial
    · intro term log inside
      left
      simp only [History.init, List.prefix_nil] at inside
      rw [inside, anchored]
    · simp [History.init]

end History
end Consensus
