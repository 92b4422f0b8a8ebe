import CrashCourse.Cluster.Steps
import CrashCourse.Cluster.Workflows

/-!
What carrying out a committed entry does to the Raft state: the term stays, the role stays
or is given up, and the log only grows.
-/

namespace CrashCourse.Cluster
open CrashCourse.Core CrashCourse.KeyValue CrashCourse.Raft

def Reached (raft : RaftNode) (effects : List RaftEffect) : Prop :=
  ∀ entry ∈ appliedBy effects, entry.index ≤ raft.appliedIndex

theorem Reached.of_advances {raft next : RaftNode} {effects : List RaftEffect} {passed : List Entry}
    (advances : RaftNode.Advances raft passed next)
    (handed : ∀ entry ∈ appliedBy effects, entry ∈ passed) : Reached next effects := by
  intro entry member
  have within := handed entry member
  rw [← advances.passed] at within
  unfold between at within
  simp only [List.mem_filter, Bool.and_eq_true, decide_eq_true_eq] at within
  exact within.2.2

structure Continues (raft : RaftNode) (effects : List RaftEffect) (next : RaftNode) : Prop where
  serves : raft.Serves next
  grows : raft.Extends effects next
  tracked : raft.Tracked → next.Tracked
  applied : raft.Tracked → raft.appliedIndex ≤ next.appliedIndex
  reached : raft.Tracked → Reached next effects

namespace Continues
variable {raft middle next : RaftNode} {effects first second : List RaftEffect}

theorem refl (raft : RaftNode) : Continues raft [] raft where
  serves := .refl raft
  grows := .of_log rfl (by simp)
  tracked := id
  applied _ := le_rfl
  reached _ _ member := absurd member List.not_mem_nil

theorem trans (one : Continues raft first middle) (two : Continues middle second next) :
    Continues raft (first ++ second) next where
  serves := one.serves.trans two.serves
  grows := one.grows.trans two.grows
  tracked := two.tracked ∘ one.tracked
  applied tracked := (one.applied tracked).trans (two.applied (one.tracked tracked))
  reached tracked entry member := by
    rw [appliedBy_append] at member
    rcases List.mem_append.mp member with early | late
    · exact (one.reached tracked entry early).trans (two.applied (one.tracked tracked))
    · exact two.reached (one.tracked tracked) entry late

theorem call_advances (raft : RaftNode) (call : Call) (tracked : raft.Tracked) :
    (raft.call call).1.Tracked ∧ raft.appliedIndex ≤ (raft.call call).1.appliedIndex ∧
      Reached (raft.call call).1 (raft.call call).2 := by
  obtain ⟨passed, advances, kept, lost⟩ := RaftNode.call_streams tracked call
  refine ⟨advances.tracked, advances.grows, .of_advances advances fun entry member => ?_⟩
  cases keeps : raft.keepsStream call with
  | true => exact kept keeps ▸ member
  | false =>
    rw [(lost keeps).1] at member
    cases member

theorem call_tracked (raft : RaftNode) (call : Call) (tracked : raft.Tracked) :
    (raft.call call).1.Tracked := (call_advances raft call tracked).1

theorem of_call {call : Call} (made : raft.call call = (next, effects)) (plain : raft.plainCall call = true)
    (serves : raft.Serves next) : Continues raft effects next := by
  have grows := @RaftNode.plainCall_extends raft call plain
  have advances := call_advances raft call
  rw [made] at grows advances
  exact ⟨serves, grows, fun tracked => (advances tracked).1, fun tracked => (advances tracked).2.1,
    fun tracked => (advances tracked).2.2⟩

theorem applyCommittedConfig {entry : Entry}
    (done : raft.applyCommittedConfig entry = (next, .ok effects)) : Continues raft effects next := by
  have serves := raft.request_serves (.applyCommittedConfig entry) rfl
  change RaftNode.Serves raft (raft.applyCommittedConfig entry).1 at serves
  rw [done] at serves
  have made : raft.call (.applyCommittedConfig entry) = (next, effects) := by
    simp only [RaftNode.call, RaftNode.settle, done]
  exact of_call made rfl serves

theorem proposeAdminConfig {envelope : ConfigEnvelope}
    (done : raft.proposeAdminConfig envelope = (next, .ok effects)) : Continues raft effects next := by
  have serves := (raft.proposeAdminConfig_tries envelope).serves
  rw [done] at serves
  have made : raft.call (.proposeAdminConfig envelope) = (next, effects) := by
    simp only [RaftNode.call, RaftNode.settle, done]
  exact of_call made rfl serves

theorem carryAdmin {policy : ClusterPolicy} {working : Working} {entry : Entry} {envelope : ConfigEnvelope}
    {session : SessionKey × Nat} {original : Bytes} {operationTag replyTag : UInt8}
    {result : AdminResultTag} {carried : Carried}
    (done : carryAdmin policy working entry envelope session original operationTag replyTag result =
      .ok carried) : Continues working.raft carried.postEffects carried.next.raft := by
  unfold Cluster.carryAdmin at done
  dsimp only at done
  split at done
  · cases done
  next sessions raft reply effects answered =>
    obtain rfl := Except.ok.inj done
    dsimp only
    cases through : working.sessions.letsThrough policy session.1 session.2 envelope.leaderTime with
    | true =>
      rw [SessionTable.applyAdmin_runs through] at answered
      have mutated := SessionTable.runAdmin_ok answered
      split at mutated
      next applied =>
        obtain ⟨rfl, same⟩ := Prod.mk.inj mutated
        obtain ⟨-, rfl⟩ := Prod.mk.inj (Except.ok.inj same)
        exact applyCommittedConfig applied
      next => cases (Prod.mk.inj mutated).2
    | false =>
      -- a request that is not let through is answered from the session alone
      obtain ⟨same, none⟩ := @SessionTable.applyAdmin_declines working.sessions
        { policy, key := session.1, sequence := session.2, canonicalCommand := original, operationTag
          sourceIndex := entry.index, at_ := envelope.leaderTime } working.raft
        (adminMutation entry replyTag result) through
      have declined : working.sessions.applyAdmin
          ⟨policy, session.1, session.2, original, operationTag, entry.index, envelope.leaderTime⟩
          (adminMutation entry replyTag result) working.raft =
          (sessions, raft, .ok (reply, effects)) := answered
      rw [declined] at same none
      obtain rfl : raft = working.raft := same
      obtain rfl := none reply effects rfl
      exact .refl _

end Continues

variable {carried : Carried} {entry : Entry} {policy : ClusterPolicy} {working : Working}

theorem carryConfig_cases {envelope : ConfigEnvelope} (decoded : ConfigEnvelope.decode entry.payload = .ok envelope)
    (done : carryConfig policy working entry = .ok carried) :
    (∃ raft effects, working.raft.applyCommittedConfig entry = (raft, .ok effects) ∧
      carried = carryPlain (working.marked entry envelope) entry raft effects) ∨
    (∃ raft effects request last more, working.raft.applyCommittedConfig entry = (raft, .ok effects) ∧
      raft.proposeAdminConfig request = (last, .ok more) ∧
      carried = carryPlain (working.marked entry envelope) entry last (effects ++ more)) ∨
    (∃ session original operationTag replyTag result,
      carryAdmin policy (working.marked entry envelope) entry envelope session original operationTag
        replyTag result = .ok carried) := by
  obtain ⟨adminSession, leaderTime, operation⟩ := envelope
  unfold carryConfig at done
  rw [decoded] at done
  simp only [bind, Except.bind, pure, Except.pure] at done
  split_ifs at done
  · cases done
  split at done
  · split at done
    · cases done
    next step stepped =>
      obtain ⟨raft, effects⟩ := step
      have applied := raftStep_ok.mp stepped
      dsimp only at done
      split at done
      · split at done
        · cases done
        next step' stepped' =>
          obtain ⟨last, more⟩ := step'
          obtain rfl := Except.ok.inj done
          exact .inr (.inl ⟨raft, effects, _, last, more, applied, raftStep_ok.mp stepped', rfl⟩)
      · obtain rfl := Except.ok.inj done
        exact .inl ⟨raft, effects, applied, rfl⟩
  · split at done
    · exact .inr (.inr ⟨_, _, _, _, _, done⟩)
    · cases done
  · split at done
    · split at done
      · exact .inr (.inr ⟨_, _, _, _, _, done⟩)
      · cases done
    · cases done
  · split at done
    · cases done
    next step stepped =>
      obtain ⟨raft, effects⟩ := step
      obtain rfl := Except.ok.inj done
      exact .inl ⟨raft, effects, raftStep_ok.mp stepped, rfl⟩
  · split at done
    · cases done
    next step stepped =>
      obtain ⟨raft, effects⟩ := step
      obtain rfl := Except.ok.inj done
      exact .inl ⟨raft, effects, raftStep_ok.mp stepped, rfl⟩
  · exact .inr (.inr ⟨_, _, _, _, _, done⟩)

theorem carryApp_quiet (done : carryApp policy working entry = .ok carried) :
    carried.next.raft = working.raft ∧ carried.postEffects = [] := by
  unfold carryApp at done
  simp only [bind, Except.bind, pure, Except.pure] at done
  split at done
  · cases done
  split at done
  · cases done
  · cases done
  · obtain rfl := Except.ok.inj done
    exact ⟨rfl, rfl⟩

theorem Continues.carryEntry (done : carryEntry policy working entry = .ok carried) :
    Continues working.raft carried.postEffects carried.next.raft := by
  have app (done : carryApp policy working entry = .ok carried) :
      Continues working.raft carried.postEffects carried.next.raft := by
    obtain ⟨raft, none⟩ := carryApp_quiet done
    rw [raft, none]
    exact .refl _
  have config (done : carryConfig policy working entry = .ok carried) :
      Continues working.raft carried.postEffects carried.next.raft := by
    cases decoded : ConfigEnvelope.decode entry.payload with
    | error error =>
      unfold carryConfig at done
      rw [decoded] at done
      cases done
    | ok envelope =>
      rcases carryConfig_cases decoded done with
        ⟨raft, effects, applied, rfl⟩ | ⟨raft, effects, request, last, more, applied, proposed, rfl⟩ |
        ⟨session, original, operationTag, replyTag, result, carries⟩
      · exact .applyCommittedConfig applied
      · exact (Continues.applyCommittedConfig applied).trans (.proposeAdminConfig proposed)
      · have admin := Continues.carryAdmin carries
        exact admin
  unfold Cluster.carryEntry at done
  cases kind : entry.kind with
  | app | appV3 => rw [kind] at done; exact app done
  | config | configV3 => rw [kind] at done; exact config done
  | noop =>
    rw [kind] at done
    obtain rfl := Except.ok.inj done
    exact .refl _

end CrashCourse.Cluster
