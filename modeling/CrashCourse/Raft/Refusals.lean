import CrashCourse.Raft.System

/-!
A refused request leaves no trace. `configInPlace` keeps the writes of
`apply_config_on_append` where the source has them.
-/

namespace CrashCourse.Raft
open CrashCourse.Core

theorem insert_member {members : BTreeSet NodeId} {id : NodeId} (held : members.contains id = true) :
    members.insert id = members := by
  apply Std.ExtTreeSet.ext_mem
  intro other
  rw [Std.ExtTreeSet.mem_insert]
  constructor
  · rintro (same | member)
    · obtain rfl : id = other := by simpa using same
      exact held
    · exact member
  · exact .inr

theorem erase_stranger {members : BTreeSet NodeId} {id : NodeId} (absent : members.contains id = false) :
    members.erase id = members := by
  apply Std.ExtTreeSet.ext_mem
  intro other
  rw [Std.ExtTreeSet.mem_erase]
  constructor
  · exact And.right
  · intro member
    refine ⟨fun same => ?_, member⟩
    obtain rfl : id = other := by simpa using same
    exact Bool.false_ne_true (absent.symm.trans member)

namespace RaftNode

/-- A projection that checks before it writes. -/
def projectInPlace (node : RaftNode) (entry : Entry) : RaftNode × Except RaftError Unit :=
  match node.applyConfigOnAppend entry with
  | .error error => (node, .error error)
  | .ok projected => (projected, .ok ())

/-- Two arms ask a set operation for their verdict; the others check before the first
write. -/
def configInPlace (node : RaftNode) (entry : Entry) : RaftNode × Except RaftError Unit :=
  match entry.envelope?.map ConfigEnvelope.operation with
  | some (.addLearner id address) =>
    if node.voters.contains id then (node, .error .invalidMessage)
    else
      let inserted := !node.learners.contains id
      let node : RaftNode := { node with learners := node.learners.insert id }
      if !inserted then (node, .error .invalidMessage)
      else
        match address with
        | some address => ({ node with addresses := node.addresses.insert id address }, .ok ())
        | none => (node, .ok ())
  | some (.removeLearner id) =>
    let removed := node.learners.contains id
    let node : RaftNode := { node with learners := node.learners.erase id }
    if !removed then (node, .error .invalidMessage)
    else ({ node with addresses := node.addresses.erase id, lastContact := node.lastContact.erase id }, .ok ())
  | _ => node.projectInPlace entry

theorem configInPlace_eq (node : RaftNode) (entry : Entry) : node.configInPlace entry = node.projectInPlace entry := by
  unfold configInPlace projectInPlace applyConfigOnAppend
  cases entry.envelope? with
  | none => rfl
  | some envelope =>
    obtain ⟨session, time, operation⟩ := envelope
    cases operation with
    | addLearner id address =>
      cases voter : node.voters.contains id with
      | true => simp [voter]
      | false =>
        cases learner : node.learners.contains id with
        | true => simp [voter, learner, insert_member learner]
        | false => cases address <;> simp [voter, learner]
    | removeLearner id =>
      cases learner : node.learners.contains id with
      | true => simp [learner]
      | false => simp [learner, erase_stranger learner]
    | _ => rfl

def Traceless (node : RaftNode) (attempt : Attempt) : Prop := ∀ error, attempt.2 = .error error → attempt.1 = node

namespace Traceless
variable {node : RaftNode}

theorem eq_of_refused {attempt : Attempt} {after : RaftNode} {error : RaftError} (traceless : Traceless node attempt)
    (done : attempt = (after, .error error)) : after = node := by
  rw [done] at traceless
  exact traceless error rfl

theorem refused (error : RaftError) : Traceless node (node, .error error) := fun _ _ => rfl

theorem accepted (next : RaftNode) (effects : List RaftEffect) : Traceless node (next, .ok effects) := by
  rintro error ⟨⟩

theorem ite {condition : Prop} [Decidable condition] {yes no : Attempt} (one : Traceless node yes)
    (other : Traceless node no) : Traceless node (if condition then yes else no) := by
  split
  · exact one
  · exact other

theorem appendConfig (envelope : ConfigEnvelope) : Traceless node (node.appendConfig envelope) := by
  unfold RaftNode.appendConfig
  dsimp only
  cases node.applyConfigOnAppend (node.configEntry envelope) with
  | error error => exact refused error
  | ok projected => exact accepted _ _

theorem proposeWithKind (payload : Bytes) (kind : EntryKind) : Traceless node (node.proposeWithKind payload kind) :=
  ite (refused _) (ite (refused _) (ite (refused _) (accepted _ _)))

theorem proposeV3Batch (payload : Bytes) : Traceless node (node.proposeV3Batch payload) :=
  ite (refused _) (proposeWithKind _ _)

theorem addLearner (id : NodeId) : Traceless node (node.addLearner id) :=
  ite (refused _) (ite (refused _) (appendConfig _))

theorem activateFeature (feature : UInt64) (leaderTime : Nat) :
    Traceless node (node.activateFeature feature leaderTime) :=
  ite (refused _) (ite (refused _) (appendConfig _))

theorem enterJoint (newVoters : BTreeSet NodeId) : Traceless node (node.enterJoint newVoters) := by
  refine ite (refused _) (ite (refused _) ?_)
  dsimp only
  split
  · exact refused _
  · exact accepted _ _

theorem promoteLearner (id : NodeId) : Traceless node (node.promoteLearner id) :=
  ite (refused _) (ite (refused _) (ite (refused _) (enterJoint _)))

theorem leaveJoint : Traceless node node.leaveJoint := by
  refine ite (refused _) (ite (refused _) ?_)
  cases node.jointEnterIndex with
  | none => exact refused _
  | some enterIndex => exact ite (refused _) (appendConfig _)

theorem proposeAdminConfig (envelope : ConfigEnvelope) : Traceless node (node.proposeAdminConfig envelope) := by
  refine ite (refused _) ?_
  cases envelope.adminSession with
  | none => exact refused _
  | some owner =>
    refine ite (refused _) ?_
    cases node.adminRefusal envelope with
    | some error => exact refused _
    | none => exact appendConfig _

end Traceless

def request? (node : RaftNode) : Call → Option Attempt
  | .propose payload => some (node.propose payload)
  | .proposeV3Batch payload => some (node.proposeV3Batch payload)
  | .addLearner id => some (node.addLearner id)
  | .promoteLearner id => some (node.promoteLearner id)
  | .enterJoint newVoters => some (node.enterJoint newVoters)
  | .leaveJoint => some node.leaveJoint
  | .beginLeadershipTransfer target leaderTime => some (node.beginLeadershipTransfer target leaderTime)
  | .activateFeature feature leaderTime => some (node.activateFeature feature leaderTime)
  | .proposeAdminConfig envelope => some (node.proposeAdminConfig envelope)
  | _ => none

/-- A refused request leaves the node as it was, with the projection of a
configuration in place. -/
theorem refused_request_leaves_no_trace (node after : RaftNode) (error : RaftError) :
    (∀ entry, node.configInPlace entry = (after, .error error) → after = node) ∧
    ∀ call, node.request? call = some (after, .error error) → after = node := by
  constructor
  · intro entry refused
    rw [configInPlace_eq, projectInPlace] at refused
    cases projection : node.applyConfigOnAppend entry with
    | error cause =>
      rw [projection] at refused
      exact (Prod.mk.inj refused).1.symm
    | ok projected =>
      rw [projection] at refused
      cases refused
  · intro call refused
    have traceless : ∀ attempt, node.request? call = some attempt → Traceless node attempt := by
      rintro attempt same
      cases call with
      | propose payload => exact Option.some.inj same ▸ .proposeWithKind _ _
      | proposeV3Batch payload => exact Option.some.inj same ▸ .proposeV3Batch _
      | addLearner id => exact Option.some.inj same ▸ .addLearner _
      | promoteLearner id => exact Option.some.inj same ▸ .promoteLearner _
      | enterJoint newVoters => exact Option.some.inj same ▸ .enterJoint _
      | leaveJoint => exact Option.some.inj same ▸ .leaveJoint
      | beginLeadershipTransfer target leaderTime =>
        exact Option.some.inj same ▸ .ite (.refused _) (.ite (.refused _) (.ite (.refused _) (.appendConfig _)))
      | activateFeature feature leaderTime => exact Option.some.inj same ▸ .activateFeature _ _
      | proposeAdminConfig envelope => exact Option.some.inj same ▸ .proposeAdminConfig _
      | _ => cases same
    exact (traceless _ refused).eq_of_refused rfl

def withLearner : RaftNode := { RaftNode.new 1 {1} 1 .default with learners := {2} }

/-- The learner is added once more: the set has been written when the node refuses. -/
theorem known_learner_is_refused :
    (withLearner.configInPlace (withLearner.configEntry ⟨none, 0, .addLearner 2 none⟩)).1 = withLearner ∧
      (withLearner.addLearner 2).1 = withLearner := by
  have known : (withLearner.configInPlace (withLearner.configEntry ⟨none, 0, .addLearner 2 none⟩)).2 =
      .error .invalidMessage := by
    decide +kernel
  have idle : (withLearner.addLearner 2).2 = .error .notLeader := by decide +kernel
  constructor
  · generalize withLearner.configEntry ⟨none, 0, .addLearner 2 none⟩ = entry at known ⊢
    exact (refused_request_leaves_no_trace withLearner _ _).1 entry (Prod.ext rfl known)
  · exact (refused_request_leaves_no_trace withLearner _ _).2 (.addLearner 2) (congrArg some (Prod.ext rfl idle))

end RaftNode
end CrashCourse.Raft
