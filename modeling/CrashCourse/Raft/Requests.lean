import CrashCourse.Raft.Calls

/-!
What clients and operators ask of a node.
-/

namespace CrashCourse.Raft
open CrashCourse.Core Consensus

variable {group : Group} {history : History NodeId Entry} {node : RaftNode}

section Requests
variable (inv : History.Inv (rules group) history) (refines : Refines group history node)
include inv refines

omit inv in
theorem Refines.refused (error : RaftError) :
    Simulates group history node.id (RaftNode.settle (node, .error error)) :=
  ⟨history, .refl history, refines, rfl⟩

theorem Refines.advance {id : NodeId} {entry : Entry} {before : History NodeId Entry}
    (leads : Leads group history node) (same : node.id = id) (steps : History.Steps (rules group) id before history)
    (explained : Explains group before history id (.persistEntries [entry])) :
    Simulates group before id (node.advanceCommit.1,
      .persistEntries [entry] :: node.advanceCommit.2 ++ node.advanceCommit.1.broadcastAppend) := by
  obtain ⟨after, follows, advanced, leads'⟩ := refines.advanceCommit inv leads
  have reached := History.Steps.inv inv follows.steps
  obtain ⟨commitIndex, appliedIndex, kept⟩ := node.advanceCommit_eq
  have id' : node.advanceCommit.1.id = id := by rw [kept]; exact same
  subst same
  refine ⟨after, .cons steps explained ?_, advanced, id'⟩
  change Follows group node.id history ((node.advanceCommit.2 ++ _).flatMap RaftEffect.atoms) after
  rw [List.flatMap_append]
  exact follows.append (Follows.quiet _ (advanced.broadcastAppend reached leads'))

theorem Refines.proposeWithKind (payload : Bytes) {kind : EntryKind} (plain : kind.isConfig = false) :
    Simulates group history node.id (RaftNode.settle (node.proposeWithKind payload kind)) := by
  unfold RaftNode.proposeWithKind
  split
  · exact refines.refused _
  next role =>
    rw [not_not] at role
    split
    · exact refines.refused _
    dsimp only
    split
    · exact refines.refused _
    have leads := refines.leads role
    obtain ⟨start, elected, _⟩ := leads.elected
    let entry : Entry :=
      { term := node.hardState.term, index := node.lastIndex + 1, kind, payload }
    have acceptable : Acceptable group.membership node.log entry :=
      ⟨by rw [← refines.lastIndex inv], fun config => by simp [entry, plain] at config⟩
    have certified := refines.certified_append inv elected acceptable
      fun _ _ config => by simp [entry, plain] at config
    have carries : node.Carries (project group.membership (node.log ++ [entry])) := by
      rw [project_append_plain _ _ plain]
      exact refines.carries
    obtain ⟨step, explained, pushed, leads'⟩ := refines.push inv leads role (.refl node) rfl rfl
      carries rfl acceptable (fun _ => plain) certified node.retiringPeers refines.retired
    exact pushed.advance (step.inv inv) leads' rfl (.single step) explained

theorem Refines.requestRead : Simulates group history node.id (RaftNode.settle node.requestRead) := by
  unfold RaftNode.requestRead
  split
  · exact refines.refused _
  next role =>
    rw [not_not] at role
    split
    · exact refines.refused _
    split
    · exact refines.refused _
    dsimp only
    have opened : node.SameClaims
        { node with
          readRound := saturatingAdd node.readRound 1
          readAcks := (∅ : BTreeSet NodeId).insert node.id
          readIndex := some node.commitIndex } := { RaftNode.SameClaims.refl node with }
    have refines' := refines.claims opened
    have broadcast := refines'.broadcastAppend inv (refines'.leads role)
    have closed : node.SameClaims
        { node with
          readRound := saturatingAdd node.readRound 1
          readAcks := (∅ : BTreeSet NodeId).insert node.id
          readIndex := none } := { RaftNode.SameClaims.refl node with }
    split
    · refine ⟨history, Follows.quiet _ fun effect member => ?_, refines.claims closed, rfl⟩
      rcases List.mem_append.mp member with member | member
      · rcases List.mem_cons.mp member with rfl | member
        · trivial
        · exact broadcast effect member
      · rw [List.mem_singleton.mp member]; trivial
    · refine ⟨history, Follows.quiet _ fun effect member => ?_, refines', rfl⟩
      rcases List.mem_cons.mp member with rfl | member
      · trivial
      · exact broadcast effect member

theorem Refines.replicatePeer (peer : NodeId) :
    Simulates group history node.id (RaftNode.settle (node.replicatePeer peer)) := by
  unfold RaftNode.replicatePeer
  split
  · exact refines.refused _
  next member =>
    simp only [Bool.or_eq_true, decide_eq_true_eq, not_or, not_not] at member
    have known : group.Watches peer := by
      refine refines.watches inv ?_
      by_cases voter : node.voters.contains peer
      · exact .inl (Std.ExtTreeSet.contains_iff_mem.mp voter)
      · have absent := Bool.eq_false_iff.mpr voter
        exact .inr (.inl (by simpa [absent] using member.2))
    exact refines.quietly _ (refines.sendAppend inv (refines.leads member.1.1) known)

section Changes
variable (free : ¬ group.fixed)
include free

theorem Refines.enterJoint (newVoters : BTreeSet NodeId) :
    Simulates group history node.id (RaftNode.settle (node.enterJoint newVoters)) := by
  unfold RaftNode.enterJoint
  split
  · exact refines.refused _
  next role =>
    rw [not_not] at role
    split
    · exact refines.refused _
    dsimp only
    split
    · exact refines.refused _
    next projected done =>
      have leads := refines.leads role
      obtain ⟨start, elected, _⟩ := leads.elected
      have config := node.configEntry_isConfig
        { adminSession := none, leaderTime := 0, operation := .enterJoint newVoters }
      have next : node.lastIndex + 1 = node.log.length + 1 := by rw [refines.lastIndex inv]
      obtain ⟨body, transfer, features⟩ := RaftNode.applyConfigOnAppend_body done
      have acceptable := RaftNode.applyConfigOnAppend_acceptable (refines.valid inv) refines.carries
        refines.transferKept refines.featuresKept next done
      have certified := refines.certified_append inv elected acceptable
        fun decoded index _ known leaves _ => by
          obtain ⟨named, leaving⟩ := RaftNode.configEntry_leaves known leaves
          cases leaving
      obtain ⟨step, explained, pushed, leads'⟩ := refines.push inv leads role body transfer features
        (RaftNode.applyConfigOnAppend_carries config refines.carries done) rfl acceptable
        (fun fixed => absurd fixed free) certified projected.retiringPeers
        fun fixed => absurd fixed free
      exact pushed.advance (step.inv inv) leads' body.id (.single step) explained

theorem Refines.tryConfig (role : node.role = .leader) {envelope : ConfigEnvelope}
    (other : ∀ named, envelope.operation ≠ .leaveJoint named) :
    Simulates group history node.id (RaftNode.settle (node.appendConfig envelope)) :=
  refines.appendConfig inv (refines.leads role) role free envelope (.of_other other)

theorem Refines.addLearner (id : NodeId) :
    Simulates group history node.id (RaftNode.settle (node.addLearner id)) := by
  unfold RaftNode.addLearner
  split
  · exact refines.refused _
  next role =>
    split
    · exact refines.refused _
    · exact refines.tryConfig inv free (not_not.mp role) (by simp)

theorem Refines.promoteLearner (id : NodeId) :
    Simulates group history node.id (RaftNode.settle (node.promoteLearner id)) := by
  unfold RaftNode.promoteLearner
  split
  · exact refines.refused _
  split
  · exact refines.refused _
  · split
    · exact refines.refused _
    · exact refines.enterJoint inv free _

theorem Refines.leaveJoint : Simulates group history node.id (RaftNode.settle node.leaveJoint) := by
  unfold RaftNode.leaveJoint
  split
  · exact refines.refused _
  next role =>
    split
    · exact refines.refused _
    split
    · exact refines.refused _
    next enterIndex isOpen =>
      split
      · exact refines.refused _
      next committed =>
        rw [not_not] at role
        refine refines.appendConfig inv (refines.leads role) role free _ fun _ index _ same => ?_
        rw [isOpen] at same
        obtain rfl := Option.some.inj same
        omega

theorem Refines.beginLeadershipTransfer (target : NodeId) (leaderTime : Nat) : Simulates group history node.id
      (RaftNode.settle (node.beginLeadershipTransfer target leaderTime)) := by
  unfold RaftNode.beginLeadershipTransfer
  split
  · exact refines.refused _
  next role =>
    split
    · exact refines.refused _
    · split
      · exact refines.refused _
      · exact refines.tryConfig inv free (not_not.mp role) (by simp)

theorem Refines.activateFeature (feature : UInt64) (leaderTime : Nat) :
    Simulates group history node.id (RaftNode.settle (node.activateFeature feature leaderTime)) := by
  unfold RaftNode.activateFeature
  split
  · exact refines.refused _
  next role =>
    split
    · exact refines.refused _
    · exact refines.tryConfig inv free (not_not.mp role) (by simp)

theorem Refines.proposeAdminConfig (envelope : ConfigEnvelope) :
    Simulates group history node.id (RaftNode.settle (node.proposeAdminConfig envelope)) := by
  unfold RaftNode.proposeAdminConfig
  split
  · exact refines.refused _
  next role =>
    rw [not_not] at role
    split
    · exact refines.refused _
    split
    · exact refines.refused _
    split
    · exact refines.refused _
    next admitted =>
      refine refines.appendConfig inv (refines.leads role) role free _ fun named index leaves same => ?_
      simp only [RaftNode.adminRefusal, leaves, same] at admitted
      split at admitted
      · cases admitted
      next committed =>
        simp only [Bool.or_eq_true, decide_eq_true_eq, not_or, bne_iff_ne, not_not, Option.some.injEq] at committed
        omega

end Changes

omit inv in
theorem Refines.openTransfer {entry : Entry} (transfer : LeadershipTransfer)
    (settles : history.Settles node.id entry) (index : transfer.intentIndex = entry.index)
    (begins : entry.configHas isBeginTransfer) : Refines group history { node with transfer := some transfer } :=
  { refines with
    rooted := { refines.rooted with }
    carries := { refines.carries with }
    leads := fun role => { refines.leads role with }
    transfer := fun isOpen => by
      obtain rfl := Option.some.inj isOpen
      exact ⟨entry, settles, index.symm, begins⟩ }

omit inv in
theorem Refines.closeTransfer : Refines group history { node with transfer := none } :=
  { refines with
    rooted := { refines.rooted with }
    carries := { refines.carries with }
    leads := fun role => { refines.leads role with }
    transfer := fun isOpen => by cases isOpen }

omit inv in
theorem Refines.activate {entry : Entry} (settles : history.Settles node.id entry)
    (activates : entry.configHas (isActivationOf atomicBatchFeature)) : Refines group history
      { node with activeFeatures := node.activeFeatures ||| atomicBatchFeature } := by
  have active : (node.activeFeatures ||| atomicBatchFeature) &&& atomicBatchFeature =
      atomicBatchFeature := by
    apply UInt64.toBitVec_inj.mp
    ext position
    simp
    grind
  exact
    { refines with
      rooted := { refines.rooted with }
      carries := { refines.carries with }
      leads := fun role => { refines.leads role with }
      genesisFeatures := fun _ => by
        dsimp only
        rw [active]; decide
      activated := fun _ => .inr ⟨entry, settles, activates⟩ }

theorem Refines.applyCommittedConfig {entry : Entry} (settles : history.Settles node.id entry) :
    Simulates group history node.id (RaftNode.settle (node.applyCommittedConfig entry)) := by
  unfold RaftNode.applyCommittedConfig
  split
  · exact refines.refused _
  next config =>
    split
    · exact refines.refused _
    next envelope decoded =>
      have shape : ∀ shape : ConfigOperation → Bool, shape envelope.operation →
          entry.configHas shape := by
        intro shape fits
        simp only [Bool.not_eq_true', Bool.not_eq_false] at config
        simp [Entry.configHas, config, decoded, fits]
      split
      next id address operation =>
        split
        next leads =>
          simp only [Bool.and_eq_true, decide_eq_true_eq] at leads
          have known : group.Watches id := refines.watches inv (.inr (.inl (by simpa using leads.2)))
          exact refines.quietly _ (refines.sendAppend inv (refines.leads leads.1) known)
        · exact refines.quietly [] (by simp)
      next target operation =>
        split
        · exact refines.refused _
        dsimp only
        have opened := refines.openTransfer
          { intentIndex := entry.index
            target
            deadline := envelope.leaderTime + node.config.leaderTransferTimeout
            finishing := false
            adminSession := envelope.adminSession } settles rfl
          (shape _ (by rw [operation]; rfl))
        split
        next leads =>
          simp only [Bool.and_eq_true, decide_eq_true_eq] at leads
          exact opened.finishLeadershipTransfer inv (opened.leads leads.1) leads.1 _ _
        · split
          · exact opened.quietly _ (by simp [RaftNode.timeoutNowEffect, Quiet, Truthful])
          · exact opened.quietly [] (by simp)
      next intentIndex result operation =>
        split
        · exact refines.closeTransfer.quietly [] (by simp)
        · exact refines.refused _
      next feature operation =>
        split
        · exact refines.refused _
        next fresh =>
          simp only [Bool.or_eq_true, bne_iff_ne, not_or, not_not] at fresh
          obtain ⟨rfl, _⟩ := fresh
          exact (refines.activate settles (shape _ (by simp [operation, isActivationOf]))).quietly []
            (by simp)
      · exact refines.quietly [] (by simp)

end Requests

def Call.changesMembership : Call → Bool
  | .addLearner _ | .promoteLearner _ | .enterJoint _ | .leaveJoint
  | .beginLeadershipTransfer _ _ | .activateFeature _ _ | .proposeAdminConfig _ => true
  | _ => false

def Offered (group : Group) (history : History NodeId Entry) (id : NodeId) : Call → Prop
  | .onMessageAt message _ => message.target = id ∧ Truthful group history message
  | .applyCommittedConfig entry => history.Settles id entry
  | _ => True

theorem Refines.call (inv : History.Inv (rules group) history) (refines : Refines group history node) (call : Call)
    (offered : Offered group history node.id call) (still : group.fixed → call.changesMembership = false)
    (own : group.fixed ∨ node.countsLateVote call = false)
    (tidy : node.takesOffice call → ¬ group.fixed → node.tidy) :
    Simulates group history node.id (node.call call) := by
  have free : call.changesMembership = true → ¬ group.fixed := by
    intro changes fixed
    simp [still fixed] at changes
  cases call with
  | tick now => exact refines.tick inv now tidy
  | onTimer now timer => exact refines.onTimer inv now timer tidy
  | onMessageAt message now => exact refines.onMessageAt inv now offered.1 offered.2 own tidy
  | propose payload => exact refines.proposeWithKind inv payload rfl
  | proposeV3Batch payload =>
    change Simulates group history node.id (RaftNode.settle (node.proposeV3Batch payload))
    unfold RaftNode.proposeV3Batch
    split
    · exact refines.refused _
    · exact refines.proposeWithKind inv payload rfl
  | requestRead => exact refines.requestRead inv
  | addLearner id => exact refines.addLearner inv (free rfl) id
  | promoteLearner id => exact refines.promoteLearner inv (free rfl) id
  | enterJoint newVoters => exact refines.enterJoint inv (free rfl) newVoters
  | leaveJoint => exact refines.leaveJoint inv (free rfl)
  | beginLeadershipTransfer target leaderTime =>
    exact refines.beginLeadershipTransfer inv (free rfl) target leaderTime
  | activateFeature feature leaderTime =>
    exact refines.activateFeature inv (free rfl) feature leaderTime
  | proposeAdminConfig envelope => exact refines.proposeAdminConfig inv (free rfl) envelope
  | replicatePeer peer => exact refines.replicatePeer inv peer
  | applyCommittedConfig entry => exact refines.applyCommittedConfig inv offered

end CrashCourse.Raft
