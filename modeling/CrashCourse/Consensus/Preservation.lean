import CrashCourse.Consensus.Invariant

/-!
Every action extends the history, and keeps the ballots, the leaders' logs and the acknowledgements in order.
-/

namespace Consensus
namespace History

variable {N E : Type*} [DecidableEq N] {rules : Rules N E}

omit [DecidableEq N] in
theorem Ballots.ungranted {history : History N E} {node : N} (ballots : Ballots rules history)
    (free : history.vote node = none) : history.granted (history.term node) node = none := by
  cases granted : history.granted (history.term node) node with
  | none => rfl
  | some grant => simp [ballots.granted_vote granted] at free

theorem update_pair_apply {V : Type*} (table : Nat → N → V) (term : Nat) (node : N) (value : V)
    (term' : Nat) (node' : N) : Function.update table term (Function.update (table term) node value) term' node' =
      if term' = term ∧ node' = node then value else table term' node' := by
  by_cases sameTerm : term' = term
  · subst sameTerm
    by_cases sameNode : node' = node <;> simp [sameNode]
  · simp [sameTerm]

variable {history after : History N E} {node : N}

theorem Step.grows (ballots : Ballots rules history) (leaders : Leaders rules history)
    (step : Step rules history node after) : Extends history after := by
  have same := Extends.refl history
  cases step with
  | @observe term newer =>
    refine { same with term := fun other => ?_ }
    by_cases actor : other = node
    · subst actor; simpa [History.observe] using newer.le
    · simp [History.observe, actor]
  | request positive fresh older =>
    refine { same with requested := fun {term asker log} was => ?_ }
    simp only [History.request, update_pair_apply]
    split
    next here => rw [here.1, here.2, fresh] at was; cases was
    next => exact was
  | @grant candidate log free asked upToDate =>
    refine { same with granted := fun {term voter grant} was => ?_ }
    simp only [History.grant, update_pair_apply]
    split
    next here => rw [here.1, here.2, ballots.ungranted free] at was; cases was
    next => exact was
  | elect open_ asked won =>
    refine { same with
      elected := fun {term leader} was => ?_
      leaderLog := fun term => ?_ }
    · have other : term ≠ history.term node := by
        rintro rfl; rw [open_] at was; cases was
      simpa [History.elect, other] using was
    · by_cases here : term = history.term node
      · subst here; simp [History.elect, leaders.leaderLog_none open_]
      · simp [History.elect, here]
  | @append entry start leads current valid certified =>
    refine { same with leaderLog := fun term => ?_ }
    by_cases here : term = history.term node
    · subst here; simp [History.append, ← leaders.leaderLog_log leads]
    · simp [History.append, here]
  | accept led follows matching keeps => exact { same with }
  | @acknowledge index led within matching =>
    refine { same with acked := fun term other => ?_ }
    simp only [History.acknowledge, update_pair_apply]
    split
    next here => rw [here.1, here.2]; exact le_max_left _ _
    next => exact le_rfl
  | commit leads held current won => exact { same with commits := List.suffix_cons _ _ }

theorem Step.ballots (ballots : Ballots rules history) (leaders : Leaders rules history)
    (step : Step rules history node after) : Ballots rules after := by
  have grows := step.grows ballots leaders
  cases step with
  | @observe term newer =>
    have past : ∀ {other}, other = node → ¬ term ≤ history.term other := by
      rintro other rfl bound
      omega
    refine { ballots with
      granted_bound := fun granted => (ballots.granted_bound granted).trans (grows.term _)
      requested_bound := fun asked => (ballots.requested_bound asked).trans (grows.term _)
      granted_vote := fun {voter grant} granted => ?_
      vote_granted := fun {voter candidate} voted => ?_
      requested_log := fun {asker log} asked unled => ?_ }
    · by_cases actor : voter = node
      · simp only [History.observe, actor, Function.update_self] at granted
        exact absurd (ballots.granted_bound granted) (past rfl)
      · simp only [History.observe, ne_eq, actor, not_false_eq_true, Function.update_of_ne]
          at granted ⊢
        exact ballots.granted_vote granted
    · by_cases actor : voter = node
      · simp [History.observe, actor] at voted
      · simp only [History.observe, ne_eq, actor, not_false_eq_true, Function.update_of_ne]
          at voted ⊢
        exact ballots.vote_granted voted
    · by_cases actor : asker = node
      · simp only [History.observe, actor, Function.update_self] at asked
        exact absurd (ballots.requested_bound asked) (past rfl)
      · simp only [History.observe, ne_eq, actor, not_false_eq_true, Function.update_of_ne]
          at asked unled ⊢
        exact ballots.requested_log asked unled
  | request positive fresh older =>
    have cases : ∀ {term asker log}, (history.request node).requested term asker = some log →
        (term = history.term node ∧ asker = node ∧ log = history.log node) ∨
          history.requested term asker = some log := by
      intro term asker log asked
      simp only [History.request, update_pair_apply] at asked
      split at asked
      next here => exact .inl ⟨here.1, here.2, (Option.some.inj asked).symm⟩
      next => exact .inr asked
    refine { ballots with
      granted_asked := fun granted => ?_
      requested_bound := fun asked => ?_
      requested_positive := fun asked => ?_
      requested_older := fun asked => ?_
      requested_sound := fun asked => ?_
      requested_log := fun asked unled => ?_ }
    · obtain ⟨log, asked, upToDate⟩ := ballots.granted_asked granted
      exact ⟨log, grows.requested asked, upToDate⟩
    · rcases cases asked with ⟨rfl, rfl, rfl⟩ | was
      · exact le_rfl
      · exact ballots.requested_bound was
    · rcases cases asked with ⟨rfl, rfl, rfl⟩ | was
      · exact positive
      · exact ballots.requested_positive was
    · rcases cases asked with ⟨rfl, rfl, rfl⟩ | was
      · exact older
      · exact ballots.requested_older was
    · rcases cases asked with ⟨rfl, rfl, rfl⟩ | was
      · exact leaders.log_sound _
      · exact ballots.requested_sound was
    · rcases cases asked with ⟨_, rfl, rfl⟩ | was
      · rfl
      · exact ballots.requested_log was unled
  | @grant candidate log free asked upToDate =>
    have cases : ∀ {term voter grant}, (history.grant node candidate).granted term voter = some grant →
        (term = history.term node ∧ voter = node ∧
          grant = ⟨candidate, history.log node, (history.elected term).isSome⟩) ∨
          history.granted term voter = some grant := by
      intro term voter grant granted
      simp only [History.grant, update_pair_apply] at granted
      split at granted
      next here => exact .inl ⟨here.1, here.2, by rw [here.1]; exact (Option.some.inj granted).symm⟩
      next => exact .inr granted
    refine { ballots with
      granted_bound := fun granted => ?_
      granted_vote := fun {voter grant} granted => ?_
      vote_granted := fun {voter choice} voted => ?_
      granted_asked := fun granted => ?_
      granted_late := fun granted late => ?_
      granted_sound := fun granted => ?_ }
    · rcases cases granted with ⟨rfl, rfl, _⟩ | was
      · exact le_rfl
      · exact ballots.granted_bound was
    · rcases cases granted with ⟨_, rfl, rfl⟩ | was
      · simp [History.grant]
      · have actor : voter ≠ node := by
          rintro rfl
          rw [ballots.granted_vote was] at free
          cases free
        simpa [History.grant, actor] using ballots.granted_vote was
    · by_cases actor : voter = node
      · subst actor
        refine ⟨⟨candidate, history.log voter, (history.elected (history.term voter)).isSome⟩, ?_, ?_⟩
        · simp [History.grant]
        · simpa [History.grant] using voted
      · obtain ⟨grant, granted, same⟩ := ballots.vote_granted (by simpa [History.grant, actor] using voted)
        exact ⟨grant, grows.granted granted, same⟩
    · rcases cases granted with ⟨rfl, rfl, rfl⟩ | was
      · exact ⟨log, asked, upToDate⟩
      · exact ballots.granted_asked was
    · rcases cases granted with ⟨rfl, rfl, rfl⟩ | was
      · exact late
      · exact ballots.granted_late was late
    · rcases cases granted with ⟨rfl, rfl, rfl⟩ | was
      · exact leaders.log_sound _
      · exact ballots.granted_sound was
  | elect open_ asked won =>
    refine { ballots with
      granted_late := fun granted late => ?_
      granted_sound := fun granted => grows.sound (ballots.granted_sound granted)
      requested_sound := fun asked => grows.sound (ballots.requested_sound asked)
      requested_log := fun {asker log} asked unled => ballots.requested_log asked ?_ }
    · obtain ⟨leader, led⟩ := Option.isSome_iff_exists.mp (ballots.granted_late granted late)
      rw [grows.elected led]; rfl
    · cases led : history.elected (history.term asker) with
      | none => rfl
      | some leader => cases unled.symm.trans (grows.elected led)
  | @append entry start leads current valid certified =>
    refine { ballots with
      granted_sound := fun granted => grows.sound (ballots.granted_sound granted)
      requested_sound := fun asked => grows.sound (ballots.requested_sound asked)
      requested_log := fun {asker log} asked unled => ?_ }
    have actor : asker ≠ node := by
      rintro rfl
      cases unled.symm.trans leads
    simpa [History.append, actor] using ballots.requested_log asked unled
  | @accept leader start log led follows matching keeps =>
    refine { ballots with requested_log := fun {asker log} asked unled => ?_ }
    have actor : asker ≠ node := by
      rintro rfl
      cases unled.symm.trans led
    simpa [History.accept, actor] using ballots.requested_log asked unled
  | acknowledge led within matching | commit leads held current won => exact { ballots with }

omit [DecidableEq N] in
theorem Ballots.voters_early (ballots : Ballots rules history) {term : Nat}
    (open_ : history.elected term = none) (candidate : N) :
    history.voters term candidate ⊆ history.earlyVoters term candidate := by
  rintro voter ⟨grant, granted, same⟩
  refine ⟨grant, granted, same, ?_⟩
  by_contra late
  have led := ballots.granted_late granted (by simpa using late)
  simp [open_] at led

theorem Step.leaders (ballots : Ballots rules history) (leaders : Leaders rules history)
    (step : Step rules history node after) : Leaders rules after := by
  have grows := step.grows ballots leaders
  cases step with
  | @observe term newer =>
    refine { leaders with
      leaderLog_log := fun {leader log} led => ?_
      log_bound := fun member => (leaders.log_bound member).trans (grows.term _) }
    have actor : leader ≠ node := by
      rintro rfl
      simp only [History.observe, Function.update_self] at led
      have := ballots.requested_bound (leaders.elected_asked led)
      omega
    simp only [History.observe, ne_eq, actor, not_false_eq_true, Function.update_of_ne] at led ⊢
    exact leaders.leaderLog_log led
  | request positive fresh older =>
    exact { leaders with elected_asked := fun led => grows.requested (leaders.elected_asked led) }
  | grant free asked upToDate =>
    exact { leaders with
      elected_won := fun led => rules.quorum_mono (grows.earlyVoters _ _) (leaders.elected_won led) }
  | elect open_ asked won =>
    have cases : ∀ {term leader log}, (history.elect node).elected term = some (leader, log) →
        (term = history.term node ∧ leader = node ∧ log = history.log node) ∨
          (term ≠ history.term node ∧ history.elected term = some (leader, log)) := by
      intro term leader log led
      by_cases here : term = history.term node
      · subst here
        obtain ⟨rfl, rfl⟩ := Prod.mk.inj
          (Option.some.inj ((by simp [History.elect] : _ = some (node, history.log node)).symm.trans led))
        exact .inl ⟨rfl, rfl, rfl⟩
      · exact .inr ⟨here, by simpa [History.elect, here] using led⟩
    have here : (history.elect node).leaderLog (history.term node) = history.log node := by
      simp [History.elect]
    have there : ∀ {term}, term ≠ history.term node →
        (history.elect node).leaderLog term = history.leaderLog term := by
      intro term other
      simp [History.elect, other]
    refine { leaders with
      elected_asked := fun led => ?_
      elected_won := fun led => ?_
      leaderLog_own := fun led => ?_
      leaderLog_log := fun led => ?_
      leaderLog_none := fun {term} unled => ?_
      leaderLog_valid := fun term => ?_
      leaderLog_sound := fun term => ?_
      log_sound := fun other => grows.sound (leaders.log_sound other) }
    · rcases cases led with ⟨rfl, rfl, rfl⟩ | ⟨_, was⟩
      · exact asked
      · exact leaders.elected_asked was
    · rcases cases led with ⟨rfl, rfl, rfl⟩ | ⟨_, was⟩
      · exact rules.quorum_mono (ballots.voters_early open_ _) won
      · exact leaders.elected_won was
    · rcases cases led with ⟨rfl, rfl, rfl⟩ | ⟨other, was⟩
      · exact ⟨[], by simp [here], by simp⟩
      · rw [there other]
        exact leaders.leaderLog_own was
    · rcases cases led with ⟨_, rfl, rfl⟩ | ⟨other, was⟩
      · exact here.symm
      · exact (leaders.leaderLog_log was).trans (there other).symm
    · have other : term ≠ history.term node := by
        rintro rfl
        simp [History.elect] at unled
      rw [there other]
      exact leaders.leaderLog_none (by simpa [History.elect, other] using unled)
    · by_cases same : term = history.term node
      · rw [same, here]
        exact leaders.sound_valid (leaders.log_sound node)
      · rw [there same]
        exact leaders.leaderLog_valid term
    · by_cases same : term = history.term node
      · rw [same, here]
        exact grows.sound (leaders.log_sound node)
      · rw [there same]
        exact grows.sound (leaders.leaderLog_sound term)
  | @append entry start leads current valid certified =>
    have here : (history.append node entry).leaderLog (history.term node) =
        history.log node ++ [entry] := by simp [History.append]
    have there : ∀ {term}, term ≠ history.term node →
        (history.append node entry).leaderLog term = history.leaderLog term := by
      intro term other
      simp [History.append, other]
    have sound : (history.append node entry).Sound rules (history.log node ++ [entry]) := by
      refine (grows.sound (leaders.log_sound node)).append ?_ ?_
      · rw [current, grows.elected leads]; rfl
      · rw [current, here]
    refine { leaders with
      leaderLog_own := fun {term leader log} led => ?_
      leaderLog_log := fun {leader log} led => ?_
      leaderLog_none := fun {term} unled => ?_
      leaderLog_valid := fun term => ?_
      leaderLog_sound := fun term => ?_
      log_sound := fun other => ?_
      log_bound := fun {other member} inside => ?_ }
    · obtain ⟨own, split, mine⟩ := leaders.leaderLog_own led
      by_cases same : term = history.term node
      · subst same
        refine ⟨own ++ [entry], ?_, ?_⟩
        · rw [here, leaders.leaderLog_log leads, split, List.append_assoc]
        · intro last member
          rcases List.mem_append.mp member with member | member
          · exact mine last member
          · rw [List.mem_singleton.mp member, current]
      · exact ⟨own, (there same).trans split, mine⟩
    · by_cases actor : leader = node
      · subst actor
        simp [History.append]
      · have same : history.term leader ≠ history.term node := by
          intro same
          have led : history.elected (history.term leader) = some (leader, log) := led
          rw [same, leads] at led
          exact actor (Prod.mk.inj (Option.some.inj led)).1.symm
        simpa [History.append, actor, same] using leaders.leaderLog_log led
    · have other : term ≠ history.term node := by
        rintro rfl
        cases unled.symm.trans leads
      rw [there other]
      exact leaders.leaderLog_none unled
    · by_cases same : term = history.term node
      · rw [same, here]
        exact valid
      · rw [there same]
        exact leaders.leaderLog_valid term
    · by_cases same : term = history.term node
      · rw [same, here]
        exact sound
      · rw [there same]
        exact grows.sound (leaders.leaderLog_sound term)
    · by_cases actor : other = node
      · subst actor
        simpa [History.append] using sound
      · simpa [History.append, actor] using grows.sound (leaders.log_sound other)
    · by_cases actor : other = node
      · subst actor
        simp only [History.append, Function.update_self, List.mem_append, List.mem_singleton] at inside ⊢
        rcases inside with inside | rfl
        · exact leaders.log_bound inside
        · exact current.le
      · simp only [History.append, ne_eq, actor, not_false_eq_true, Function.update_of_ne]
          at inside ⊢
        exact leaders.log_bound inside
  | @accept leader start log led follows matching keeps =>
    refine { leaders with
      leaderLog_log := fun {other start} leads => ?_
      log_sound := fun other => ?_
      log_bound := fun {other member} inside => ?_ }
    · have actor : other ≠ node := by
        rintro rfl
        have leads : history.elected (history.term other) = some (other, start) := leads
        rw [led] at leads
        exact follows (Prod.mk.inj (Option.some.inj leads)).1
      simpa [History.accept, actor] using leaders.leaderLog_log leads
    · by_cases actor : other = node
      · subst actor
        have kept : (history.accept other log).Sound rules log :=
          (grows.sound (leaders.leaderLog_sound _)).of_start matching
        simpa [History.accept] using kept
      · simpa [History.accept, actor] using grows.sound (leaders.log_sound other)
    · by_cases actor : other = node
      · subst actor
        simp only [History.accept, Function.update_self] at inside ⊢
        exact leaders.leaderLog_bound ballots (matching.subset inside)
      · simp only [History.accept, ne_eq, actor, not_false_eq_true, Function.update_of_ne]
          at inside ⊢
        exact leaders.log_bound inside
  | acknowledge led within matching | commit leads held current won => exact { leaders with }

omit [DecidableEq N] in
/-- An action that neither acknowledges, votes nor changes a term keeps the
acknowledgements if it drops nothing from a log. -/
theorem Acks.extend (acks : Acks history) (grows : Extends history after)
    (sameTerm : after.term = history.term) (sameAcked : after.acked = history.acked)
    (sameGranted : after.granted = history.granted)
    (keeps : ∀ other start, start <+: history.log other → start <+: after.log other) : Acks after where
  acked_le term other := by
    rw [sameAcked]
    exact (acks.acked_le term other).trans (grows.leaderLog term).length_le
  acked_bound acked := by
    rw [sameAcked] at acked
    rw [sameTerm]
    exact acks.acked_bound acked
  retained {term other index} within holds := by
    rw [sameAcked] at within
    rw [sameTerm] at holds
    have whole := within.trans (acks.acked_le term other)
    rw [grows.leaderLog_take whole] at holds ⊢
    exact keeps _ _ (acks.retained within fun later newer bound => grows.holds (holds later newer bound))
  granted_retained {later voter grant term index} granted newer within between late := by
    rw [sameGranted] at granted
    rw [sameAcked] at within
    have whole := within.trans (acks.acked_le term voter)
    rw [grows.leaderLog_take whole] at between late ⊢
    exact acks.granted_retained granted newer within
      (fun middle above below => grows.holds (between middle above below))
      fun isLate => grows.holds (late isLate)

theorem Step.acks (ballots : Ballots rules history) (leaders : Leaders rules history)
    (acks : Acks history) (step : Step rules history node after) : Acks after := by
  have grows := step.grows ballots leaders
  cases step with
  | @observe term newer =>
    exact { acks with
      acked_bound := fun acked => (acks.acked_bound acked).trans (grows.term _)
      retained := fun within holds => acks.retained within fun later above bound =>
        holds later above (bound.trans (grows.term _)) }
  | request positive fresh older | commit leads held current won => exact { acks with }
  | @grant candidate log free asked upToDate =>
    refine { acks with
      granted_retained := fun {later voter grant term index} granted newer within between late => ?_ }
    simp only [History.grant, update_pair_apply] at granted
    split at granted
    next here =>
      obtain ⟨rfl, rfl⟩ := here
      obtain rfl := Option.some.inj granted
      refine acks.retained within fun middle above bound => ?_
      rcases bound.lt_or_eq with below | rfl
      · exact between middle above below
      · intro leader start led
        exact late (by simp [led]) leader start led
    next => exact acks.granted_retained granted newer within between late
  | elect open_ asked won => exact acks.extend grows rfl rfl rfl fun _ _ inside => inside
  | @append entry start leads current valid certified =>
    refine acks.extend grows rfl rfl rfl fun other start inside => ?_
    by_cases actor : other = node
    · subst actor
      simpa [History.append] using inside.trans (List.prefix_append _ _)
    · simpa [History.append, actor] using inside
  | @accept leader start log led follows matching keeps =>
    refine { acks with retained := fun {term other index} within holds => ?_ }
    have was := acks.retained within holds
    by_cases actor : other = node
    · subst actor
      simp only [History.accept, Function.update_self]
      rcases Nat.eq_zero_or_pos index with rfl | some
      · simp
      refine keeps _ was ?_
      rcases (acks.acked_bound (some.trans_le within)).lt_or_eq with newer | rfl
      · obtain ⟨own, split, _⟩ := leaders.leaderLog_own led
        rw [split]
        exact (holds _ newer le_rfl leader start led).trans (List.prefix_append _ _)
      · exact List.take_prefix _ _
    · simpa [History.accept, actor] using was
  | @acknowledge index led within matching =>
    have cases : ∀ {term other count}, count ≤ (history.acknowledge node index).acked term other →
        (term = history.term node ∧ other = node ∧ count ≤ index) ∨
          count ≤ history.acked term other := by
      intro term other count bound
      simp only [History.acknowledge, update_pair_apply] at bound
      split at bound
      next here =>
        obtain ⟨rfl, rfl⟩ := here
        rcases le_max_iff.mp bound with bound | bound
        · exact .inr bound
        · exact .inl ⟨rfl, rfl, bound⟩
      next => exact .inr bound
    have reach : index ≤ (history.leaderLog (history.term node)).length := by
      simpa [within] using matching.length_le
    refine { acks with
      acked_le := fun term other => ?_
      acked_bound := fun {term other} acked => ?_
      retained := fun {term other count} bound holds => ?_
      granted_retained := fun {later voter grant term count} granted newer bound between late => ?_ }
    · rcases cases (le_refl ((history.acknowledge node index).acked term other)) with
        ⟨rfl, rfl, bound⟩ | bound
      · exact bound.trans reach
      · exact bound.trans (acks.acked_le term other)
    · rcases cases (Nat.succ_le_of_lt acked) with ⟨rfl, rfl, _⟩ | bound
      · exact le_rfl
      · exact acks.acked_bound bound
    · rcases cases bound with ⟨rfl, rfl, below⟩ | was
      · change (history.leaderLog _).take count <+: history.log other
        rw [take_of_start matching (by simpa [within] using below), List.take_take]
        exact List.take_prefix _ _
      · exact acks.retained was holds
    · rcases cases bound with ⟨rfl, rfl, _⟩ | was
      · exact absurd (ballots.granted_bound granted) (not_le.mpr newer)
      · exact acks.granted_retained granted newer was between late

end History
end Consensus
