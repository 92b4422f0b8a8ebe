import CrashCourse.Raft.Log

/-!
The membership fields of a node are the projection of its log, on an append and on a
replay.
-/

namespace CrashCourse.Raft
open CrashCourse.Core

structure RaftNode.Carries (node : RaftNode) (projection : Projection) : Prop where
  voters : node.voters = projection.voters
  learners : node.learners = projection.learners
  joint : node.joint = projection.joint
  enterIndex : node.jointEnterIndex = projection.enterIndex

structure RaftNode.SameBody (before after : RaftNode) : Prop where
  id : after.id = before.id
  hardState : after.hardState = before.hardState
  log : after.log = before.log
  commitIndex : after.commitIndex = before.commitIndex
  appliedIndex : after.appliedIndex = before.appliedIndex
  leaderId : after.leaderId = before.leaderId
  nextIndex : after.nextIndex = before.nextIndex
  matchIndex : after.matchIndex = before.matchIndex
  votes : after.votes = before.votes
  preVotes : after.preVotes = before.preVotes
  readAcks : after.readAcks = before.readAcks
  readRound : after.readRound = before.readRound
  readIndex : after.readIndex = before.readIndex
  config : after.config = before.config
  snapshotIndex : after.snapshotIndex = before.snapshotIndex
  snapshotTerm : after.snapshotTerm = before.snapshotTerm
  baseVoters : after.baseVoters = before.baseVoters
  baseLearners : after.baseLearners = before.baseLearners
  baseJoint : after.baseJoint = before.baseJoint
  baseJointEnterIndex : after.baseJointEnterIndex = before.baseJointEnterIndex
  baseActiveFeatures : after.baseActiveFeatures = before.baseActiveFeatures
  role : after.role = before.role ∨ after.role = .follower

namespace RaftNode.SameBody
variable {first second third : RaftNode}

theorem refl (node : RaftNode) : SameBody node node := by
  constructor <;> first | rfl | exact .inl rfl

theorem trans (one : SameBody first second) (two : SameBody second third) : SameBody first third where
  id := two.id.trans one.id
  hardState := two.hardState.trans one.hardState
  log := two.log.trans one.log
  commitIndex := two.commitIndex.trans one.commitIndex
  appliedIndex := two.appliedIndex.trans one.appliedIndex
  leaderId := two.leaderId.trans one.leaderId
  nextIndex := two.nextIndex.trans one.nextIndex
  matchIndex := two.matchIndex.trans one.matchIndex
  votes := two.votes.trans one.votes
  preVotes := two.preVotes.trans one.preVotes
  readAcks := two.readAcks.trans one.readAcks
  readRound := two.readRound.trans one.readRound
  readIndex := two.readIndex.trans one.readIndex
  config := two.config.trans one.config
  snapshotIndex := two.snapshotIndex.trans one.snapshotIndex
  snapshotTerm := two.snapshotTerm.trans one.snapshotTerm
  baseVoters := two.baseVoters.trans one.baseVoters
  baseLearners := two.baseLearners.trans one.baseLearners
  baseJoint := two.baseJoint.trans one.baseJoint
  baseJointEnterIndex := two.baseJointEnterIndex.trans one.baseJointEnterIndex
  baseActiveFeatures := two.baseActiveFeatures.trans one.baseActiveFeatures
  role := by
    rcases two.role with same | follower
    · rw [same]; exact one.role
    · exact .inr follower

end RaftNode.SameBody

namespace RaftNode
variable {membership : MembershipState} {node next : RaftNode} {entry : Entry}

theorem applyConfigOnAppend_body (done : node.applyConfigOnAppend entry = .ok next) :
    node.SameBody next ∧ next.transfer = node.transfer ∧
      next.activeFeatures = node.activeFeatures := by
  unfold applyConfigOnAppend at done
  split at done
  · cases done
  split at done <;> (try dsimp only at done) <;> (try split at done) <;> (try split at done) <;>
    cases done <;>
    refine ⟨⟨rfl, rfl, rfl, rfl, rfl, rfl, rfl, rfl, rfl, rfl, rfl, rfl, rfl, rfl, rfl, rfl, rfl,
      rfl, rfl, rfl, rfl, ?_⟩, rfl, rfl⟩ <;> first
    | exact .inl rfl
    | (dsimp only; split <;> simp)

variable {projection : Projection}

theorem applyConfigOnAppend_entry (config : entry.kind.isConfig) (carries : node.Carries projection)
    (done : node.applyConfigOnAppend entry = .ok next) : next.Carries (projection.entry entry) := by
  obtain ⟨voters, learners, joint, enterIndex⟩ := carries
  unfold applyConfigOnAppend at done
  unfold Projection.entry
  rw [if_pos config]
  cases decoded : entry.envelope? with
  | none => simp [decoded] at done
  | some envelope =>
    rw [decoded] at done
    dsimp only at done ⊢
    cases operation : envelope.operation with
    | addLearner id address | removeLearner id =>
      rw [operation] at done
      dsimp only at done
      split at done <;> cases done
      exact ⟨voters, by simp [Projection.apply, learners], joint, enterIndex⟩
    | updateAddress id address
    | beginLeaderTransfer target
    | finishLeaderTransfer index result
    | activateFeature feature =>
      rw [operation] at done
      dsimp only at done
      split at done <;> cases done
      exact ⟨voters, learners, joint, enterIndex⟩
    | enterJoint newVoters =>
      rw [operation] at done
      dsimp only at done
      split at done <;> cases done
      exact ⟨by simp [Projection.apply, voters], by simp [Projection.apply, learners],
        by simp [Projection.apply, voters], rfl⟩
    | leaveJoint index =>
      rw [operation] at done
      dsimp only at done
      split at done
      · cases done
      next old new isJoint =>
        split at done <;> cases done
        next same =>
          rw [not_ne_iff, enterIndex] at same
          rw [joint] at isJoint
          exact ⟨by simp [Projection.apply, same, isJoint],
            by simpa [Projection.apply, same, isJoint] using learners,
            by simp [Projection.apply, same, isJoint], by simp [Projection.apply, same, isJoint]⟩

theorem applyConfigOnAppend_carries (config : entry.kind.isConfig)
    (carries : node.Carries (project membership node.log)) (done : node.applyConfigOnAppend entry = .ok next) :
    next.Carries (project membership (node.log ++ [entry])) := by
  rw [project_append]
  exact applyConfigOnAppend_entry config carries done

/-- The open transfer is backed by its intent in the log. -/
def TransferKept (node : RaftNode) : Prop :=
  ∀ transfer, node.transfer = some transfer → ∃ intent ∈ node.log,
    intent.index = transfer.intentIndex ∧ intent.configHas isBeginTransfer

/-- An active feature is a genesis feature or was activated in the log. -/
structure FeaturesKept (membership : MembershipState) (node : RaftNode) : Prop where
  genesis : (membership.activeFeatures &&& atomicBatchFeature) ≠ 0 →
    (node.activeFeatures &&& atomicBatchFeature) ≠ 0
  activated : (node.activeFeatures &&& atomicBatchFeature) ≠ 0 →
    (membership.activeFeatures &&& atomicBatchFeature) ≠ 0 ∨ ∃ prior ∈ node.log,
      prior.configHas (isActivationOf atomicBatchFeature)

theorem configTransitionInFlightBefore_eq (numbered : Numbered 0 node.log) {index : Nat}
    (next : index = node.log.length + 1) : node.configTransitionInFlightBefore index =
      transferScan (node.log.filter fun entry => entry.kind.isConfig) none := by
  unfold configTransitionInFlightBefore
  congr 1
  apply List.filter_congr
  intro entry member
  obtain ⟨position, inside, rfl⟩ := List.mem_iff_getElem.mp member
  have here := numbered.getElem_index (List.getElem?_eq_getElem inside)
  have low : node.log[position].index < index := by omega
  simp [low]

theorem applyConfigOnAppend_acceptable (valid : ValidLog membership node.log)
    (carries : node.Carries (project membership node.log)) (transfer : node.TransferKept)
    (features : node.FeaturesKept membership) (next_ : entry.index = node.log.length + 1)
    (done : node.applyConfigOnAppend entry = .ok next) : Acceptable membership node.log entry := by
  refine ⟨next_, fun config => ?_⟩
  have scan := configTransitionInFlightBefore_eq valid.numbered next_
  unfold applyConfigOnAppend at done
  cases decoded : entry.envelope? with
  | none => simp [decoded] at done
  | some envelope =>
    refine ⟨envelope, rfl, ?_⟩
    rw [decoded] at done
    dsimp only at done
    cases operation : envelope.operation with
    | addLearner id address =>
      rw [operation] at done
      dsimp only at done
      split at done
      · cases done
      next fresh =>
        simpa [Admits, carries.voters, carries.learners] using fresh
    | removeLearner id =>
      rw [operation] at done
      dsimp only at done
      split at done
      · cases done
      next known =>
        simpa [Admits, carries.learners] using known
    | updateAddress id address =>
      rw [operation] at done
      dsimp only at done
      split at done
      · cases done
      next known =>
        unfold Admits
        by_cases voter : id ∈ (project membership node.log).voters
        · exact .inl voter
        · have absent : (project membership node.log).voters.contains id = false := by
            simpa [← Std.ExtTreeSet.contains_iff_mem] using voter
          exact .inr (by simpa [carries.voters, carries.learners, absent] using known)
    | enterJoint newVoters =>
      rw [operation] at done
      dsimp only at done
      split at done
      · cases done
      next free =>
        simp only [carries.joint, scan, Bool.or_eq_true, not_or, Bool.not_eq_true] at free
        exact ⟨by simpa using free.1.1, free.2, free.1.2⟩
    | leaveJoint index =>
      rw [operation] at done
      dsimp only at done
      split at done
      · cases done
      next old new isJoint =>
        split at done
        · cases done
        next same =>
          rw [not_ne_iff, carries.enterIndex] at same
          exact ⟨by rw [← carries.joint, isJoint]; rfl, same⟩
    | beginLeaderTransfer target =>
      rw [operation] at done
      dsimp only at done
      split at done
      · cases done
      next free =>
        simp only [carries.voters, carries.joint, scan, Bool.or_eq_true, not_or,
          Bool.not_eq_true, Bool.not_eq_false'] at free
        exact ⟨Std.ExtTreeSet.mem_iff_contains.mpr free.1.1, by simpa using free.1.2, free.2⟩
    | finishLeaderTransfer intentIndex result =>
      rw [operation] at done
      dsimp only at done
      split at done
      next known =>
        have bound : ∀ begin ∈ node.log, begin.index ≤ node.log.length := by
          intro begin member
          obtain ⟨position, inside, rfl⟩ := List.mem_iff_getElem.mp member
          have := valid.numbered.getElem_index (List.getElem?_eq_getElem inside)
          omega
        rcases Bool.or_eq_true_iff.mp known with committed | retained
        · cases isOpen : node.transfer with
          | none => simp [isOpen] at committed
          | some open_ =>
            obtain ⟨intent, member, here, begins⟩ := transfer open_ isOpen
            have same : open_.intentIndex = intentIndex := by simpa [isOpen] using committed
            refine ⟨?_, intent, member, here.trans same, begins⟩
            have := bound intent member
            omega
        · simp only [Bool.and_eq_true, decide_eq_true_eq, List.any_eq_true, beq_iff_eq] at retained
          obtain ⟨low, intent, member, here, begins⟩ := retained
          exact ⟨low, intent, member, here, begins⟩
      · cases done
    | activateFeature feature =>
      rw [operation] at done
      dsimp only at done
      split at done
      · cases done
      next fresh =>
        simp only [Bool.or_eq_true, not_or, Bool.not_eq_true, bne_eq_false_iff_eq, List.any_eq_false] at fresh
        obtain ⟨⟨known, inactive⟩, unseen⟩ := fresh
        refine ⟨known, ?_, fun prior member => by simp [unseen prior member]⟩
        by_contra genesis
        subst known
        exact features.genesis genesis inactive

theorem applyConfigOnAppend_of_acceptable (valid : ValidLog membership node.log)
    (carries : node.Carries (project membership node.log)) (features : node.FeaturesKept membership)
    (config : entry.kind.isConfig) (acceptable : Acceptable membership node.log entry) :
    ∃ next, node.applyConfigOnAppend entry = .ok next := by
  obtain ⟨envelope, decoded, admits⟩ := acceptable.config config
  have scan := configTransitionInFlightBefore_eq valid.numbered acceptable.index
  unfold applyConfigOnAppend
  rw [decoded]
  dsimp only
  cases operation : envelope.operation with
  | addLearner id address =>
    rw [operation] at admits
    refine ⟨_, if_neg ?_⟩
    simpa [Admits, carries.voters, carries.learners] using admits
  | removeLearner id =>
    rw [operation] at admits
    refine ⟨_, if_neg ?_⟩
    simpa [Admits, carries.learners] using admits
  | updateAddress id address =>
    rw [operation] at admits
    refine ⟨_, if_neg ?_⟩
    rcases admits with voter | learner
    · simp [carries.voters, Std.ExtTreeSet.mem_iff_contains.mp voter]
    · simp [carries.learners, Std.ExtTreeSet.mem_iff_contains.mp learner]
  | enterJoint newVoters =>
    rw [operation] at admits
    obtain ⟨settled, nonempty, idle⟩ := admits
    refine ⟨_, if_neg ?_⟩
    simp [carries.joint, settled, scan, idle, nonempty]
  | leaveJoint index =>
    rw [operation] at admits
    obtain ⟨isJoint, open_⟩ := admits
    obtain ⟨⟨old, new⟩, isJoint⟩ := Option.isSome_iff_exists.mp isJoint
    rw [carries.joint, isJoint]
    exact ⟨_, if_neg (by rw [not_ne_iff, carries.enterIndex, open_])⟩
  | beginLeaderTransfer target =>
    rw [operation] at admits
    obtain ⟨voter, settled, idle⟩ := admits
    refine ⟨_, if_neg ?_⟩
    simp [carries.voters, carries.joint, Std.ExtTreeSet.mem_iff_contains.mp voter, settled, scan, idle]
  | finishLeaderTransfer intentIndex result =>
    rw [operation] at admits
    obtain ⟨low, intent, member, here, begins⟩ := admits
    refine ⟨node, if_pos ?_⟩
    have retained : (node.log.any fun candidate =>
        candidate.index == intentIndex && candidate.configHas isBeginTransfer) = true :=
      List.any_eq_true.mpr ⟨intent, member, by simp [here, begins]⟩
    simp [low, retained]
  | activateFeature feature =>
    rw [operation] at admits
    obtain ⟨rfl, genesis, unseen⟩ := admits
    refine ⟨node, if_neg ?_⟩
    have inactive : (node.activeFeatures &&& atomicBatchFeature) = 0 := by
      by_contra active
      rcases features.activated active with base | ⟨prior, member, activates⟩
      · exact base genesis
      · exact unseen prior member activates
    have none : (node.log.any fun prior => prior.configHas (isActivationOf atomicBatchFeature)) = false :=
      List.any_eq_false.mpr unseen
    simp [inactive, none]

theorem resyncTransferFinishing_body (node : RaftNode) : node.SameBody node.resyncTransferFinishing ∧
      node.resyncTransferFinishing.activeFeatures = node.activeFeatures := by
  unfold resyncTransferFinishing
  split
  · exact ⟨.refl node, rfl⟩
  · dsimp only
    split
    · exact ⟨{ SameBody.refl node with }, rfl⟩
    · exact ⟨.refl node, rfl⟩

theorem resyncTransferFinishing_transfer (node : RaftNode) {transfer : LeadershipTransfer}
    (now : node.resyncTransferFinishing.transfer = some transfer) :
    ∃ was, node.transfer = some was ∧ was.intentIndex = transfer.intentIndex := by
  unfold resyncTransferFinishing at now
  split at now
  next none => rw [none] at now; cases now
  next was isOpen =>
    dsimp only at now
    split at now
    · obtain rfl := Option.some.inj now
      exact ⟨was, isOpen, rfl⟩
    · exact ⟨transfer, now, rfl⟩

theorem replayOperation_body (node : RaftNode) (index : Nat) (operation : ConfigOperation) :
    node.SameBody (node.replayOperation index operation) ∧
      (node.replayOperation index operation).transfer = node.transfer ∧
      (node.replayOperation index operation).activeFeatures = node.activeFeatures ∧
      (node.replayOperation index operation).role = node.role := by
  cases operation with
  | leaveJoint enterIndex =>
    unfold replayOperation
    dsimp only
    split
    · split <;> exact ⟨{ SameBody.refl node with }, rfl, rfl, rfl⟩
    · exact ⟨.refl node, rfl, rfl, rfl⟩
  | _ => exact ⟨{ SameBody.refl node with }, rfl, rfl, rfl⟩

theorem replayOperation_carries (carries : node.Carries projection) (index : Nat) (operation : ConfigOperation) :
    (node.replayOperation index operation).Carries (projection.apply index operation) := by
  obtain ⟨voters, learners, joint, enterIndex⟩ := carries
  cases operation with
  | addLearner id address
  | removeLearner id => exact ⟨voters, by simp [replayOperation, Projection.apply, learners], joint, enterIndex⟩
  | updateAddress id address
  | beginLeaderTransfer target
  | finishLeaderTransfer intent result
  | activateFeature feature => exact ⟨voters, learners, joint, enterIndex⟩
  | enterJoint newVoters =>
    exact ⟨by simp [replayOperation, Projection.apply, voters],
      by simp [replayOperation, Projection.apply, learners],
      by simp [replayOperation, Projection.apply, voters], rfl⟩
  | leaveJoint index =>
    unfold replayOperation Projection.apply
    dsimp only
    rw [enterIndex, joint]
    split
    · cases isJoint : projection.joint with
      | none => exact ⟨voters, learners, joint.trans isJoint, rfl⟩
      | some pair => exact ⟨rfl, learners, rfl, rfl⟩
    · exact ⟨voters, learners, joint, enterIndex⟩

theorem replayEntries_body (node : RaftNode) (entries : List Entry) : node.SameBody (node.replayEntries entries) ∧
      (node.replayEntries entries).transfer = node.transfer ∧
      (node.replayEntries entries).activeFeatures = node.activeFeatures ∧
      (node.replayEntries entries).role = node.role := by
  induction entries generalizing node with
  | nil => exact ⟨.refl node, rfl, rfl, rfl⟩
  | cons entry rest ih =>
    unfold replayEntries
    cases entry.envelope? with
    | none => exact ⟨.refl node, rfl, rfl, rfl⟩
    | some envelope =>
      obtain ⟨body, transfer, features, role⟩ :=
        replayOperation_body node entry.index envelope.operation
      obtain ⟨body', transfer', features', role'⟩ :=
        ih (node.replayOperation entry.index envelope.operation)
      exact ⟨body.trans body', transfer'.trans transfer, features'.trans features,
        role'.trans role⟩

theorem replayEntries_carries (carries : node.Carries projection) (log : List Entry)
    (decodes : ∀ entry ∈ log, entry.kind.isConfig → entry.envelope?.isSome) :
    (node.replayEntries (log.filter fun entry => entry.kind.isConfig)).Carries
      (log.foldl Projection.entry projection) := by
  induction log generalizing node projection with
  | nil => exact carries
  | cons entry rest ih =>
    have later := fun other member => decodes other (List.mem_cons_of_mem entry member)
    rw [List.foldl_cons]
    by_cases config : entry.kind.isConfig
    · obtain ⟨envelope, decoded⟩ :=
        Option.isSome_iff_exists.mp (decodes entry List.mem_cons_self config)
      unfold Projection.entry
      simp only [List.filter_cons, config, if_true, replayEntries, decoded]
      exact ih (replayOperation_carries carries entry.index envelope.operation) later
    · unfold Projection.entry
      simp only [List.filter_cons, config, if_false, Bool.false_eq_true]
      exact ih carries later

end RaftNode

theorem ValidLog.decodes {membership : MembershipState} {log : List Entry}
    (valid : ValidLog membership log) {entry : Entry} (member : entry ∈ log)
    (config : entry.kind.isConfig) : entry.envelope?.isSome := by
  obtain ⟨pre, post, rfl⟩ := List.append_of_mem member
  obtain ⟨envelope, decoded, _⟩ :=
    (valid pre entry ⟨post, by simp⟩).config config
  rw [decoded]; rfl

namespace RaftNode
variable {membership : MembershipState} {node : RaftNode}

structure Rooted (membership : MembershipState) (node : RaftNode) : Prop where
  voters : node.baseVoters = membership.voters
  learners : node.baseLearners = membership.learners
  joint : node.baseJoint = membership.joint.map fun joint => (joint.oldVoters, joint.newVoters)
  enterIndex : node.baseJointEnterIndex = membership.joint.map JointMembership.enterIndex
  features : node.baseActiveFeatures = membership.activeFeatures
  snapshotIndex : node.snapshotIndex = 0
  snapshotTerm : node.snapshotTerm = 0

theorem Rooted.of_body {after : RaftNode} (rooted : node.Rooted membership)
    (body : node.SameBody after) : after.Rooted membership where
  voters := body.baseVoters.trans rooted.voters
  learners := body.baseLearners.trans rooted.learners
  joint := body.baseJoint.trans rooted.joint
  enterIndex := body.baseJointEnterIndex.trans rooted.enterIndex
  features := body.baseActiveFeatures.trans rooted.features
  snapshotIndex := body.snapshotIndex.trans rooted.snapshotIndex
  snapshotTerm := body.snapshotTerm.trans rooted.snapshotTerm

theorem pruneMembership_body (node : RaftNode) : node.SameBody node.pruneMembership := by
  refine { SameBody.refl node with role := ?_ }
  unfold pruneMembership
  dsimp only
  split
  · exact .inr rfl
  · exact .inl rfl

theorem resetMembership_body (node : RaftNode) : node.SameBody node.resetMembership :=
  { SameBody.refl node with }

theorem rebuild_body (node : RaftNode) : node.SameBody node.rebuildMembershipFromLog :=
  (resyncTransferFinishing_body node).1.trans <| (resetMembership_body _).trans <|
    (replayEntries_body _ _).1.trans <| pruneMembership_body _

theorem rebuild_transfer (node : RaftNode) :
    node.rebuildMembershipFromLog.transfer = node.resyncTransferFinishing.transfer :=
  (replayEntries_body node.resyncTransferFinishing.resetMembership _).2.1

theorem rebuild_features (rooted : node.Rooted membership) :
    node.rebuildMembershipFromLog.activeFeatures = membership.activeFeatures := by
  refine ((replayEntries_body node.resyncTransferFinishing.resetMembership _).2.2.1).trans ?_
  exact (resyncTransferFinishing_body node).1.baseActiveFeatures.trans rooted.features

theorem rebuild_retired (plain : Plain node.log) : node.rebuildMembershipFromLog.retiringPeers = ∅ := by
  have none : (node.log.filter fun entry => entry.kind.isConfig) = [] := by
    rw [List.filter_eq_nil_iff]
    intro entry member
    simp [plain entry member]
  unfold rebuildMembershipFromLog
  rw [none]
  rfl

theorem rebuild_carries (rooted : node.Rooted membership) (valid : ValidLog membership node.log) :
    node.rebuildMembershipFromLog.Carries (project membership node.log) := by
  have synced := rooted.of_body (resyncTransferFinishing_body node).1
  have base : node.resyncTransferFinishing.resetMembership.Carries (.genesis membership) :=
    ⟨synced.voters, synced.learners, synced.joint, synced.enterIndex⟩
  exact { replayEntries_carries base node.log fun entry member => valid.decodes member with }

variable {set : Set NodeId}

theorem countIn_le (votes members : BTreeSet NodeId) (inside : ∀ voter ∈ votes, voter ∈ set) :
    countIn votes members ≤ Consensus.countIn members.toList set := by
  classical
  have nodup : (votes.toList.filter members.contains).Nodup := by
    refine List.Nodup.filter _ ?_
    refine votes.distinct_toList.imp ?_
    intro left right different same
    exact different (by simp [same])
  refine (List.Nodup.subperm nodup ?_).length_le
  intro voter member
  rw [List.mem_filter] at member ⊢
  refine ⟨?_, by simpa using inside voter (by simpa using member.1)⟩
  simpa using member.2

theorem Carries.quorum_of_hasMajority {projection : Projection} (carries : node.Carries projection)
    {votes : BTreeSet NodeId} (won : node.hasMajority votes) (inside : ∀ voter ∈ votes, voter ∈ set) :
    projection.Quorum set := by
  unfold hasMajority at won
  unfold Projection.Quorum
  rw [carries.joint] at won
  cases isJoint : projection.joint with
  | none =>
    rw [isJoint] at won
    have bound := countIn_le votes node.voters inside
    dsimp only at won
    rw [decide_eq_true_eq, majority] at won
    unfold Consensus.Majority
    rw [← carries.voters, Std.ExtTreeSet.length_toList]
    omega
  | some pair =>
    rw [isJoint] at won
    simp only [Bool.and_eq_true, decide_eq_true_eq] at won
    have old := countIn_le votes pair.1 inside
    have new := countIn_le votes pair.2 inside
    unfold Consensus.Majority
    simp only [Std.ExtTreeSet.length_toList]
    omega

theorem countHolding_le (candidate : Nat) (members : BTreeSet NodeId)
    (inside : ∀ member ∈ members, node.holdsIndex candidate member → member ∈ set) :
    node.countHolding candidate members ≤ Consensus.countIn members.toList set := by
  classical
  unfold countHolding Consensus.countIn
  rw [← List.countP_eq_length_filter, ← List.countP_eq_length_filter]
  refine List.countP_mono_left fun member here holds => ?_
  simpa using inside member (Std.ExtTreeSet.mem_toList.mp here) holds

theorem Carries.quorum_of_commitQuorum {projection : Projection} (carries : node.Carries projection) {candidate : Nat}
    (won : node.commitQuorum candidate)
    (inside : ∀ member, (projection.joint = none → member ∈ node.voters) → node.holdsIndex candidate member → member ∈ set) :
    projection.Quorum set := by
  unfold commitQuorum at won
  unfold Projection.Quorum
  rw [carries.joint] at won
  cases isJoint : projection.joint with
  | none =>
    rw [isJoint] at won
    have bound := countHolding_le candidate node.voters fun member here =>
      inside member fun _ => here
    dsimp only at won
    rw [decide_eq_true_eq, majority] at won
    unfold Consensus.Majority
    rw [← carries.voters, Std.ExtTreeSet.length_toList]
    omega
  | some pair =>
    rw [isJoint] at won
    simp only [Bool.and_eq_true, decide_eq_true_eq] at won
    have counted : ∀ member, node.holdsIndex candidate member → member ∈ set :=
      fun member => inside member fun settled => by rw [isJoint] at settled; cases settled
    have old := countHolding_le candidate pair.1 fun member _ => counted member
    have new := countHolding_le candidate pair.2 fun member _ => counted member
    unfold Consensus.Majority
    simp only [Std.ExtTreeSet.length_toList]
    omega

theorem foldl_last {α : Type} (holds : α → Bool) (candidates : List α) (start : α) :
    candidates.foldl (fun last candidate => if holds candidate then candidate else last) start =
      (candidates.filter holds).getLast?.getD start := by
  induction candidates generalizing start with
  | nil => rfl
  | cons candidate rest ih =>
    rw [List.foldl_cons, ih]
    cases held : holds candidate with
    | false => simp [held]
    | true =>
      rw [List.filter_cons_of_pos held, List.getLast?_cons, Option.getD_some]
      rfl

def committables (node : RaftNode) : List Nat :=
  (List.range' (node.commitIndex + 1) (node.lastIndex - node.commitIndex)).filter fun candidate =>
    node.commitQuorum candidate && node.termAt candidate == some node.hardState.term

theorem mem_committables (node : RaftNode) {index : Nat} : index ∈ node.committables ↔ node.commitIndex < index ∧
    index ≤ node.lastIndex ∧ node.termAt index = some node.hardState.term ∧ node.commitQuorum index = true := by
  simp only [committables, List.mem_filter, List.mem_range'_1, Bool.and_eq_true, beq_iff_eq]
  constructor
  · rintro ⟨⟨low, high⟩, quorum, term⟩
    exact ⟨by omega, by omega, term, quorum⟩
  · rintro ⟨low, high, term, quorum⟩
    exact ⟨⟨by omega, by omega⟩, quorum, term⟩

theorem committable_eq (node : RaftNode) : node.committable = node.committables.getLast?.getD node.commitIndex := foldl_last ..

/-- The commit index moves only where a quorum holds an entry of the current term. -/
theorem committable_cases (node : RaftNode) :
    node.committable = node.commitIndex ∨ node.committable ∈ node.committables := by
  rw [committable_eq]
  cases last : node.committables.getLast? with
  | none => exact .inl rfl
  | some index => exact .inr (List.mem_of_getLast? last)

end RaftNode
end CrashCourse.Raft
