import CrashCourse.Raft.Types

/-!
How a node derives its membership from its log, on an append and by a replay on the base.
-/

namespace CrashCourse.Raft
open CrashCourse.Core

def isMembershipOperation : ConfigOperation → Bool
  | .addLearner .. | .removeLearner .. | .updateAddress .. | .enterJoint .. => true
  | _ => false

def isBeginTransfer : ConfigOperation → Bool
  | .beginLeaderTransfer .. => true
  | _ => false

def isFinishOf (intentIndex : Nat) : ConfigOperation → Bool
  | .finishLeaderTransfer index _ => index == intentIndex
  | _ => false

def isActivationOf (feature : UInt64) : ConfigOperation → Bool
  | .activateFeature prior => prior == feature
  | _ => false

def Entry.configHas (entry : Entry) (shape : ConfigOperation → Bool) : Bool :=
  entry.kind.isConfig && entry.envelope?.any fun envelope => shape envelope.operation

/-- One step of the transfer scan: `none` is the early `return true`. -/
def transferScanStep (transfer : Option Nat) (entry : Entry) : Option (Option Nat) :=
  match entry.envelope? with
  | none => none
  | some envelope =>
    match envelope.operation with
    | .beginLeaderTransfer _ => if transfer.isSome then none else some (some entry.index)
    | .finishLeaderTransfer intentIndex _ =>
      if transfer = some intentIndex then some none else none
    | _ => some transfer

def transferScan : List Entry → Option Nat → Bool
  | [], transfer => transfer.isSome
  | entry :: rest, transfer =>
    match transferScanStep transfer entry with
    | none => true
    | some transfer => transferScan rest transfer

namespace RaftNode

def configTransitionInFlightBefore (node : RaftNode) (index : Nat) : Bool :=
  transferScan
    (node.log.filter fun entry => entry.kind.isConfig && decide (entry.index < index)) none

/-- `LeaveJoint` is not in the list of the source either. -/
def uncommittedMembershipChange (node : RaftNode) : Bool :=
  (node.log.reverse.takeWhile fun entry => decide (entry.index > node.commitIndex)).any
    fun entry => entry.configHas isMembershipOperation

/-- Every arm checks before it writes, so an error leaves the node as it was. -/
def applyConfigOnAppend (node : RaftNode) (entry : Entry) : Except RaftError RaftNode :=
  match entry.envelope? with
  | none => .error .invalidMessage
  | some envelope =>
    match envelope.operation with
    | .addLearner id address =>
      if node.voters.contains id || node.learners.contains id then .error .invalidMessage
      else
        .ok { node with
          learners := node.learners.insert id
          addresses := match address with
            | some address => node.addresses.insert id address
            | none => node.addresses }
    | .removeLearner id =>
      if !node.learners.contains id then .error .invalidMessage
      else
        .ok { node with
          learners := node.learners.erase id
          addresses := node.addresses.erase id
          lastContact := node.lastContact.erase id }
    | .updateAddress id address =>
      if !node.voters.contains id && !node.learners.contains id then .error .invalidMessage
      else .ok { node with addresses := node.addresses.insert id address }
    | .enterJoint newVoters =>
      if node.joint.isSome || node.configTransitionInFlightBefore entry.index
          || newVoters.isEmpty then .error .busy
      else
        .ok { node with
          voters := node.voters ∪ newVoters
          learners := node.learners.filter fun id => !newVoters.contains id
          joint := some (node.voters, newVoters)
          jointEnterIndex := some entry.index }
    | .leaveJoint enterIndex =>
      match node.joint with
      | none => .error .invalidMessage
      | some (_, new) =>
        if node.jointEnterIndex ≠ some enterIndex then .error .invalidMessage
        else
          .ok { node with
            voters := new
            lastContact := node.lastContact.filter fun id _ =>
              new.contains id || node.learners.contains id
            joint := none
            jointEnterIndex := none
            role := if new.contains node.id then node.role else .follower }
    | .beginLeaderTransfer target =>
      if !node.voters.contains target || node.joint.isSome
          || node.configTransitionInFlightBefore entry.index then .error .invalidMessage
      else .ok node
    | .finishLeaderTransfer intentIndex _ =>
      let committedIntent := node.transfer.any fun transfer => transfer.intentIndex == intentIndex
      let retainedIntent := node.log.any fun candidate =>
        candidate.index == intentIndex && candidate.configHas isBeginTransfer
      if committedIntent || (decide (intentIndex < entry.index) && retainedIntent) then .ok node
      else .error .invalidMessage
    | .activateFeature feature =>
      if feature != atomicBatchFeature || (node.activeFeatures &&& feature) != 0
          || node.log.any fun prior => prior.configHas (isActivationOf feature) then
        .error .busy
      else .ok node

/-- `finishing` is recomputed from the entries above the intent. -/
def resyncTransferFinishing (node : RaftNode) : RaftNode :=
  match node.transfer with
  | none => node
  | some transfer =>
    let terminalEntryPresent :=
      (node.log.reverse.takeWhile fun entry => decide (entry.index > transfer.intentIndex)).any
        fun entry => entry.configHas (isFinishOf transfer.intentIndex)
    if transfer.finishing ≠ terminalEntryPresent then
      { node with transfer := some { transfer with finishing := terminalEntryPresent } }
    else node

/-- The voters that a `LeaveJoint` at `terminal` retires, this node excepted. -/
def retire (node : RaftNode) (removed : List NodeId) (terminal : Nat) :
    BTreeMap NodeId RetiringPeer :=
  (removed.filter (· != node.id)).foldl
    (fun retiring peer => retiring.insert peer ⟨terminal, false⟩) node.retiringPeers

def replayOperation (node : RaftNode) (index : Nat) : ConfigOperation → RaftNode
  | .addLearner id address =>
    { node with
      learners := node.learners.insert id
      addresses := match address with
        | some address => node.addresses.insert id address
        | none => node.addresses }
  | .removeLearner id =>
    { node with
      learners := node.learners.erase id
      addresses := node.addresses.erase id
      lastContact := node.lastContact.erase id }
  | .updateAddress id address => { node with addresses := node.addresses.insert id address }
  | .enterJoint newVoters =>
    { node with
      voters := node.voters ∪ newVoters
      learners := node.learners.filter fun id => !newVoters.contains id
      joint := some (node.voters, newVoters)
      jointEnterIndex := some index }
  | .leaveJoint enterIndex =>
    if node.jointEnterIndex = some enterIndex then
      let left : RaftNode := match node.joint with
        | some (old, new) =>
          { node with
            joint := none
            retiringPeers := node.retire (old.toList.filter fun id => !new.contains id) index
            voters := new }
        | none => node
      { left with
        jointEnterIndex := none
        addresses := left.addresses.filter fun id _ =>
          left.voters.contains id || left.learners.contains id
            || left.retiringPeers.contains id }
    else node
  | .beginLeaderTransfer _ | .finishLeaderTransfer .. | .activateFeature _ => node

/-- An undecodable payload ends the replay. -/
def replayEntries (node : RaftNode) : List Entry → RaftNode
  | [] => node
  | entry :: rest =>
    match entry.envelope? with
    | none => node
    | some envelope => replayEntries (node.replayOperation entry.index envelope.operation) rest

def resetMembership (node : RaftNode) : RaftNode :=
  { node with
    voters := node.baseVoters
    learners := node.baseLearners
    joint := node.baseJoint
    jointEnterIndex := node.baseJointEnterIndex
    addresses := node.baseAddresses
    activeFeatures := node.baseActiveFeatures
    retiringPeers := ∅ }

def pruneMembership (node : RaftNode) : RaftNode :=
  { node with
    lastContact := node.lastContact.filter fun id _ =>
      node.voters.contains id || node.learners.contains id
    role :=
      if !node.voters.contains node.id && !node.learners.contains node.id
      then .follower else node.role }

def rebuildMembershipFromLog (node : RaftNode) : RaftNode :=
  (node.resyncTransferFinishing.resetMembership.replayEntries
    (node.log.filter fun entry => entry.kind.isConfig)).pruneMembership

def membershipState (node : RaftNode) : MembershipState where
  voters := node.voters
  learners := node.learners
  joint := node.joint.bind fun (oldVoters, newVoters) =>
    node.jointEnterIndex.map fun enterIndex => { oldVoters, newVoters, enterIndex }
  addresses := node.addresses.filter fun id _ => node.voters.contains id || node.learners.contains id
  activeFeatures := node.activeFeatures

def membershipStateAt (node : RaftNode) (index : Nat) : MembershipState :=
  (rebuildMembershipFromLog
    { node with log := node.log.filter fun entry => decide (entry.index ≤ index) }).membershipState

def restoreMembershipState (node : RaftNode) (state : MembershipState) :
    RaftNode × Except RaftError Unit :=
  match state.validate with
  | .error _ => (node, .error .invalidMessage)
  | .ok _ =>
    let joint := state.joint.map fun joint => (joint.oldVoters, joint.newVoters)
    let jointEnterIndex := state.joint.map JointMembership.enterIndex
    ({ node with
        voters := state.voters
        learners := state.learners
        joint := joint
        jointEnterIndex := jointEnterIndex
        addresses := state.addresses
        activeFeatures := state.activeFeatures
        baseVoters := state.voters
        baseLearners := state.learners
        baseJoint := joint
        baseJointEnterIndex := jointEnterIndex
        baseAddresses := state.addresses
        baseActiveFeatures := state.activeFeatures }, .ok ())

def replayRetainedMembershipSuffix (node : RaftNode) : RaftNode := node.rebuildMembershipFromLog

end RaftNode
end CrashCourse.Raft
