import CrashCourse.Core.Config
import CrashCourse.Core.Rng

/-!
The values of `cc-raft`. `RaftNode` keeps every field of the source, volatile ones
included.
-/

namespace CrashCourse.Raft
open CrashCourse.Core

def protocolVersion : Nat := 2
def semanticVersionV3 : Nat := 3

def supportsProtocolVersion (version : Nat) : Bool :=
  version == protocolVersion || version == semanticVersionV3

def snapshotChunkBytes : Nat := 256 * 1024

structure RaftConfig where
  electionMin : Nat
  electionMax : Nat
  heartbeat : Nat
  maxEntriesPerAppend : Nat
  pipelineWindow : Nat
  leaderTransferTimeout : Nat
  deriving DecidableEq, Repr

def RaftConfig.default : RaftConfig where
  electionMin := 150000000
  electionMax := 300000000
  heartbeat := 50000000
  maxEntriesPerAppend := 64
  pipelineWindow := 8
  leaderTransferTimeout := 15000000000

inductive Role where
  | follower | candidate | leader | learner
  deriving DecidableEq, Repr

inductive EntryKind where
  | app | noop | config | appV3 | configV3
  deriving DecidableEq, Repr

namespace EntryKind

def isApp : EntryKind → Bool
  | app | appV3 => true
  | _ => false

def isConfig : EntryKind → Bool
  | config | configV3 => true
  | _ => false

def requiresSemanticV3 : EntryKind → Bool
  | appV3 | configV3 => true
  | _ => false

end EntryKind

structure Entry where
  term : Nat
  index : Nat
  kind : EntryKind
  payload : Bytes
  deriving DecidableEq, Repr

def Entry.envelope? (entry : Entry) : Option ConfigEnvelope :=
  (ConfigEnvelope.decode entry.payload).toOption

structure HardState where
  term : Nat
  votedFor : Option NodeId
  deriving DecidableEq, Repr

structure AppendRequest where
  prevIndex : Nat
  prevTerm : Nat
  entries : List Entry
  leaderCommit : Nat
  readRound : Nat
  deriving DecidableEq, Repr

structure AppendResponse where
  success : Bool
  matchIndex : Nat
  conflictTerm : Option Nat
  conflictIndex : Nat
  readRound : Nat
  deriving DecidableEq, Repr

inductive SnapshotRejectReason where
  | restartFromZero | gap | conflict | tooLarge | staleTerm | corrupt
  deriving DecidableEq, Repr

structure SnapshotChunk where
  transferId : Nat
  lastIncludedIndex : Nat
  lastIncludedTerm : Nat
  totalLen : Nat
  snapshotCrc32c : BitVec 32
  offset : Nat
  data : Bytes
  done : Bool
  deriving DecidableEq, Repr

inductive MessageKind where
  | preVoteReq (lastIndex : Nat) (lastTerm : Nat)
  | preVoteResp (granted : Bool)
  | voteReq (lastIndex : Nat) (lastTerm : Nat)
  | voteResp (granted : Bool)
  | appendReq (request : AppendRequest)
  | appendResp (response : AppendResponse)
  | snapshotChunk (chunk : SnapshotChunk)
  | snapshotAck (transferId nextOffset : Nat) (accepted : Bool)
      (reason : Option SnapshotRejectReason)
  | timeoutNow (intentIndex : Nat)
  | followerReadRequest (requestId commandHash : Nat)
  | followerReadGrant (requestId commandHash : Nat) (readIndex : Nat) (readTime : Nat)
  deriving DecidableEq, Repr

structure Message where
  protoVersion : Nat
  sender : NodeId
  target : NodeId
  term : Nat
  kind : MessageKind
  deriving DecidableEq, Repr

inductive TimerKind where
  | election | heartbeat
  deriving DecidableEq, Repr

inductive RaftEffect where
  | send (message : Message)
  | receiveSnapshotChunk (message : Message)
  | receiveSnapshotAck (message : Message)
  | persistHard (hard : HardState)
  | persistEntries (entries : List Entry)
  | truncateSuffix (index : Nat)
  | apply (entries : List Entry)
  | armTimer (id : Nat) (at_ : Nat) (kind : TimerKind)
  | readBarrier (index : Nat)
  | readBarrierReady (index : Nat)
  | followerReadRequest (sender : NodeId) (requestId commandHash : Nat) (at_ : Nat)
  | followerReadGrant (sender : NodeId) (term : Nat) (requestId commandHash : Nat)
      (readIndex : Nat) (readTime : Nat)
  | trace (name : String) (index : Nat)
  deriving DecidableEq, Repr

inductive RaftError where
  | notLeader | readBarrierNotReady | busy | invalidMessage | committedConflict
  | transferInProgress
  deriving DecidableEq, Repr

/-- A voter that a `LeaveJoint` removed and that still gets a farewell append. -/
structure RetiringPeer where
  terminal : Nat
  farewellSent : Bool
  deriving DecidableEq, Repr

structure LeadershipTransfer where
  intentIndex : Nat
  target : NodeId
  deadline : Nat
  finishing : Bool
  adminSession : Option (SessionKey × Nat)
  deriving DecidableEq, Repr

structure RaftNode where
  id : NodeId
  role : Role
  hardState : HardState
  voters : BTreeSet NodeId
  learners : BTreeSet NodeId
  joint : Option (BTreeSet NodeId × BTreeSet NodeId)
  jointEnterIndex : Option Nat
  baseVoters : BTreeSet NodeId
  baseLearners : BTreeSet NodeId
  baseJoint : Option (BTreeSet NodeId × BTreeSet NodeId)
  baseJointEnterIndex : Option Nat
  baseAddresses : BTreeMap NodeId PeerAddress
  addresses : BTreeMap NodeId PeerAddress
  activeFeatures : UInt64
  baseActiveFeatures : UInt64
  log : List Entry
  commitIndex : Nat
  appliedIndex : Nat
  leaderId : Option NodeId
  nextIndex : BTreeMap NodeId Nat
  matchIndex : BTreeMap NodeId Nat
  lastContact : BTreeMap NodeId Nat
  retiringPeers : BTreeMap NodeId RetiringPeer
  electionDeadline : Nat
  heartbeatDeadline : Nat
  config : RaftConfig
  rng : Xoshiro256pp
  votes : BTreeSet NodeId
  preVotes : BTreeSet NodeId
  heardQuorum : BTreeSet NodeId
  quorumDeadline : Nat
  readAcks : BTreeSet NodeId
  readRound : Nat
  readIndex : Option Nat
  snapshotIndex : Nat
  snapshotTerm : Nat
  nextSnapshotTransferId : Nat
  transfer : Option LeadershipTransfer

namespace RaftNode

def lastIndex (node : RaftNode) : Nat :=
  match node.log.getLast? with
  | some entry => entry.index
  | none => node.snapshotIndex

def lastTerm (node : RaftNode) : Nat :=
  match node.log.getLast? with
  | some entry => entry.term
  | none => node.snapshotTerm

def entryAt (node : RaftNode) (index : Nat) : Option Entry :=
  node.log.find? fun entry => entry.index == index

def termAt (node : RaftNode) (index : Nat) : Option Nat :=
  if index = 0 then some 0
  else if index = node.snapshotIndex then some node.snapshotTerm
  else if index < node.snapshotIndex then none
  else (node.entryAt index).map Entry.term

def logIsUpToDate (node : RaftNode) (index : Nat) (term : Nat) : Bool :=
  decide (term > node.lastTerm) || (term == node.lastTerm && decide (index ≥ node.lastIndex))

def resetElection (node : RaftNode) (now : Nat) : RaftNode :=
  let low := node.config.electionMin
  let high := max node.config.electionMax (low + 1)
  let (timeout, rng) := node.rng.rangeU64 low (high + 1)
  { node with rng := rng, electionDeadline := now + timeout }

def rngDomain : Bytes := [0x72, 0x61, 0x66, 0x74]

def new (id : NodeId) (voters : BTreeSet NodeId) (seed : UInt64) (config : RaftConfig) : RaftNode :=
  resetElection
    { id := id
      role := if voters.contains id then .follower else .learner
      hardState := ⟨0, none⟩
      voters := voters
      learners := ∅
      joint := none
      jointEnterIndex := none
      baseVoters := voters
      baseLearners := ∅
      baseJoint := none
      baseJointEnterIndex := none
      baseAddresses := ∅
      addresses := ∅
      activeFeatures := 0
      baseActiveFeatures := 0
      log := []
      commitIndex := 0
      appliedIndex := 0
      leaderId := none
      nextIndex := ∅
      matchIndex := ∅
      lastContact := ∅
      retiringPeers := ∅
      electionDeadline := 0
      heartbeatDeadline := 0
      config := config
      rng := .stream seed rngDomain id
      votes := ∅
      preVotes := ∅
      heardQuorum := ∅
      quorumDeadline := 0
      readAcks := ∅
      readRound := 0
      readIndex := none
      snapshotIndex := 0
      snapshotTerm := 0
      nextSnapshotTransferId := 1
      transfer := none } 0

end RaftNode
end CrashCourse.Raft
