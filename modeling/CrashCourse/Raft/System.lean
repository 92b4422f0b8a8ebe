import CrashCourse.Raft.Node

/-!
Runs of a group of nodes from one common membership. Messages stay in the soup for ever,
so a delivery may be late, repeated or never made. A crash may hit a node between two
effects, or two entries of one `PersistEntries`.
-/

namespace CrashCourse.Raft
open CrashCourse.Core

/-- The common start of a group: a valid genesis membership, the seeds, and a
configuration that lets an append carry entries (every host runs with
`RaftConfig::default`, that allows 64). -/
structure Cluster where
  membership : MembershipState
  seed : NodeId → UInt64
  config : RaftConfig
  valid : membership.validate = .ok ()
  appends : 0 < config.maxEntriesPerAppend

structure Disk where
  hard : HardState
  log : List Entry
  deriving DecidableEq

def Disk.empty : Disk := ⟨⟨0, none⟩, []⟩

namespace Cluster

def boot (cluster : Cluster) (id : NodeId) : RaftNode :=
  ((RaftNode.new id cluster.membership.voters (cluster.seed id)
    cluster.config).restoreMembershipState cluster.membership).1

def restore (cluster : Cluster) (id : NodeId) (disk : Disk) : RaftNode :=
  RaftNode.replayRetainedMembershipSuffix
    { cluster.boot id with hardState := disk.hard, log := disk.log }

end Cluster

inductive Call where
  | tick (now : Nat)
  | onTimer (now : Nat) (timer : TimerKind)
  | onMessageAt (message : Message) (now : Nat)
  | propose (payload : Bytes)
  | proposeV3Batch (payload : Bytes)
  | requestRead
  | addLearner (id : NodeId)
  | promoteLearner (id : NodeId)
  | enterJoint (newVoters : BTreeSet NodeId)
  | leaveJoint
  | beginLeadershipTransfer (target : NodeId) (leaderTime : Nat)
  | activateFeature (feature : UInt64) (leaderTime : Nat)
  | proposeAdminConfig (envelope : ConfigEnvelope)
  | replicatePeer (peer : NodeId)
  | applyCommittedConfig (entry : Entry)

namespace RaftNode

def settle (attempt : Attempt) : Step :=
  (attempt.1, match attempt.2 with
    | .ok effects => effects
    | .error _ => [])

def call (node : RaftNode) : Call → Step
  | .tick now => node.tick now
  | .onTimer now timer => node.onTimer now timer
  | .onMessageAt message now => node.onMessageAt message now
  | .propose payload => settle (node.propose payload)
  | .proposeV3Batch payload => settle (node.proposeV3Batch payload)
  | .requestRead => settle node.requestRead
  | .addLearner id => settle (node.addLearner id)
  | .promoteLearner id => settle (node.promoteLearner id)
  | .enterJoint newVoters => settle (node.enterJoint newVoters)
  | .leaveJoint => settle node.leaveJoint
  | .beginLeadershipTransfer target leaderTime =>
    settle (node.beginLeadershipTransfer target leaderTime)
  | .activateFeature feature leaderTime => settle (node.activateFeature feature leaderTime)
  | .proposeAdminConfig envelope => settle (node.proposeAdminConfig envelope)
  | .replicatePeer peer => settle (node.replicatePeer peer)
  | .applyCommittedConfig entry => settle (node.applyCommittedConfig entry)

end RaftNode

/-- One durable write or one release at a time. -/
def RaftEffect.atoms : RaftEffect → List RaftEffect
  | .persistEntries entries => entries.map fun entry => .persistEntries [entry]
  | effect => [effect]

structure Sys where
  nodes : NodeId → RaftNode
  disks : NodeId → Disk
  soup : List Message
  /-- Entries handed to the host of a node and not yet applied there. -/
  pending : NodeId → List Entry
  /-- Every entry ever handed to a host for application, with the node. -/
  applied : List (NodeId × Entry)

namespace Sys

def init (cluster : Cluster) : Sys where
  nodes := cluster.boot
  disks := fun _ => .empty
  soup := []
  pending := fun _ => []
  applied := []

def setDisk (sys : Sys) (id : NodeId) (disk : Disk) : Sys :=
  { sys with disks := Function.update sys.disks id disk }

def execute (id : NodeId) (sys : Sys) : RaftEffect → Sys
  | .send message => { sys with soup := message :: sys.soup }
  | .persistHard hard => sys.setDisk id { sys.disks id with hard }
  | .persistEntries entries =>
    sys.setDisk id { sys.disks id with log := (sys.disks id).log ++ entries }
  | .truncateSuffix index =>
    sys.setDisk id { sys.disks id with
      log := (sys.disks id).log.filter fun entry => decide (entry.index < index) }
  | .apply entries =>
    { sys with
      pending := Function.update sys.pending id (sys.pending id ++ entries)
      applied := sys.applied ++ entries.map fun entry => (id, entry) }
  | _ => sys

def executeAll (id : NodeId) (sys : Sys) (effects : List RaftEffect) : Sys :=
  effects.foldl (execute id) sys

def setNode (sys : Sys) (id : NodeId) (node : RaftNode) : Sys :=
  { sys with nodes := Function.update sys.nodes id node }

end Sys

/-- A message must be in the soup, and a committed entry the next one the host has to
apply. -/
def Sys.offers (sys : Sys) (id : NodeId) : Call → Bool
  | .onMessageAt message _ => message.target == id && sys.soup.contains message
  | .applyCommittedConfig entry =>
    match sys.pending id with
    | next :: _ => next == entry
    | [] => false
  | _ => true

inductive Event where
  | call (id : NodeId) (call : Call)
  /-- The host applies an entry that is not a configuration entry. -/
  | applied (id : NodeId)
  /-- The node dies in the middle of the call, `executed` writes and releases
  into its effects. -/
  | crash (id : NodeId) (call : Call) (executed : Nat)

namespace Sys

def take (sys : Sys) (id : NodeId) : Call → Sys
  | .applyCommittedConfig _ =>
    { sys with pending := Function.update sys.pending id (sys.pending id).tail }
  | _ => sys

def perform (sys : Sys) (id : NodeId) (call : Call) : Sys :=
  let (node, effects) := (sys.nodes id).call call
  ((sys.take id call).setNode id node).executeAll id (effects.flatMap RaftEffect.atoms)

def crash (cluster : Cluster) (sys : Sys) (id : NodeId) (call : Call) (executed : Nat) : Sys :=
  let effects := ((sys.nodes id).call call).2
  let cut := sys.executeAll id ((effects.flatMap RaftEffect.atoms).take executed)
  { cut.setNode id (cluster.restore id (cut.disks id)) with
    pending := Function.update cut.pending id [] }

/-- An event that is not possible leaves the group as it is. -/
def step (cluster : Cluster) (sys : Sys) : Event → Sys
  | .call id call => if sys.offers id call then sys.perform id call else sys
  | .applied id =>
    match sys.pending id with
    | next :: rest =>
      if next.kind.isConfig then sys
      else { sys with pending := Function.update sys.pending id rest }
    | [] => sys
  | .crash id call executed =>
    if sys.offers id call then crash cluster sys id call executed else sys

def run (cluster : Cluster) (sys : Sys) (events : List Event) : Sys :=
  events.foldl (step cluster) sys

end Sys
end CrashCourse.Raft
