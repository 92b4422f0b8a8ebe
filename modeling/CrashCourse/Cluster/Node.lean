import CrashCourse.Cluster.Prepare
import CrashCourse.Cluster.Ccsn

/-!
The node: Raft, the state machine and the retry state. An effect that has to be durable
first ends the output of a call; the rest waits in `continuation` for `Persisted`.
-/

namespace CrashCourse.Cluster
open CrashCourse.Core CrashCourse.KeyValue CrashCourse.Raft

def followerReadFeature : UInt64 := 1

structure HostLimits where
  maxPendingPeer : Nat
  maxPendingClient : Nat
  maxUncommittedEntries : Nat
  maxUncommittedBytes : Nat
  maxPendingReads : Nat
  maxPendingReadBytes : Nat
  maxPendingClientRoutes : Nat
  deriving DecidableEq

def HostLimits.default : HostLimits where
  maxPendingPeer := 4096
  maxPendingClient := 4096
  maxUncommittedEntries := 4096
  maxUncommittedBytes := 64 * 1024 * 1024
  maxPendingReads := 1024
  maxPendingReadBytes := 64 * 1024 * 1024
  maxPendingClientRoutes := 4096

structure NodeConfig where
  id : NodeId
  clusterId : Bytes
  seed : UInt64
  raft : RaftConfig
  store : StoreConfig
  policy : ClusterPolicy
  hostLimits : HostLimits

structure PendingRead where
  client : ClientId
  sequence : Nat
  command : KvCommand
  at_ : Nat
  index : Nat
  deriving DecidableEq

structure PeerCapability where
  semanticVersion : Nat
  features : UInt64
  deriving DecidableEq

def PeerCapability.offers (capability : PeerCapability) (feature : UInt64) : Bool :=
  capability.semanticVersion == semanticVersionV3 && capability.features &&& feature != 0

structure PendingFollowerRead where
  command : KvCommand
  requestId : Nat
  commandHash : Nat
  leader : NodeId
  term : Nat
  grant : Option (Nat × Nat)
  deriving DecidableEq

structure PendingFollowerGrant where
  follower : NodeId
  requestId : Nat
  commandHash : Nat
  requestTime : Nat
  term : Nat
  deriving DecidableEq

inductive NodeEffect where
  | send (message : Message)
  | receiveSnapshotChunk (message : Message)
  | receiveSnapshotAck (message : Message)
  | persistHard (hard : HardState)
  | persistEntries (entries : List Entry)
  | truncateSuffix (index : Nat)
  | persistStore (bytes : Bytes)
  | clientReply (client : ClientId) (sequence : Nat) (reply : KvReply)
  | readReply (client : ClientId) (sequence : Nat) (reply : KvReply)
  | adminReply (client : ClientId) (sequence : Nat) (reply : AdminReply)
  | armTimer (id : Nat) (at_ : Nat) (kind : TimerKind)
  | trace (name : String)
  deriving DecidableEq

def PreparedReply.effect : PreparedReply → NodeEffect
  | kv client route reply => .clientReply client route reply
  | admin client route reply => .adminReply client route reply

structure StoreApplyContinuation where
  current : PreparedCommittedEntry
  pending : List PreparedCommittedEntry
  deferred : List RaftEffect
  remaining : List RaftEffect

inductive NodeContinuation where
  | raft (effects : List RaftEffect)
  | store (state : StoreApplyContinuation)

structure Node where
  raft : RaftNode
  kv : Kv
  sessions : SessionTable
  config : NodeConfig
  pendingReads : List PendingRead
  pendingFollowerReads : BTreeMap (ClientId × Nat) PendingFollowerRead
  pendingFollowerGrants : BTreeMap (NodeId × Nat) PendingFollowerGrant
  peerCapabilities : BTreeMap NodeId PeerCapability
  followerReadRoundActive : Bool
  readBarrierReady : Option Nat
  routes : ReplyRoutes
  sessionReservations : BTreeMap Nat SessionReservation
  logicalReservations : BTreeMap Nat Nat
  continuation : Option NodeContinuation

abbrev NodeAttempt := Node × Fallible (List NodeEffect)

namespace Node

def new (config : NodeConfig) (voters : BTreeSet NodeId) : Fallible Node :=
  if config.clusterId.all (· == 0) then fail (.environment "zero cluster id")
  else
    let config : NodeConfig :=
      { config with
        store := { config.store with
          maxKeyBytes := config.policy.maxKeyBytes
          maxValueBytes := config.policy.maxValueBytes } }
    .ok {
      raft := .new config.id voters config.seed
        { config.raft with leaderTransferTimeout := config.policy.leaderTransferTimeoutNs }
      kv := .new config.store
      sessions := .empty
      config
      pendingReads := []
      pendingFollowerReads := ∅
      pendingFollowerGrants := ∅
      peerCapabilities := ∅
      followerReadRoundActive := false
      readBarrierReady := none
      routes := ⟨∅, ∅⟩
      sessionReservations := ∅
      logicalReservations := ∅
      continuation := none }

def working (node : Node) : Working := ⟨node.kv, node.sessions, node.raft⟩

/-- The peer has shown on its present connection that it supports the feature. -/
def peerOffers (node : Node) (peer : NodeId) (feature : UInt64) : Bool :=
  node.peerCapabilities[peer]?.any fun capability => capability.offers feature

def isMember (raft : RaftNode) (id : NodeId) : Bool := raft.voters.contains id || raft.learners.contains id

def readReply (kv : Kv) (command : KvCommand) (at_ : Nat) : KvReply :=
  match command with
  | .batch _ => .op (.error .invalidInput)
  | .op op =>
    match kv.read op at_ with
    | .ok reply => .op reply
    | .error error => .op (.error error)

def readIsReady (node : Node) (ready : Nat) (read : PendingRead) : Bool :=
  decide (ready ≥ read.index) && decide (node.kv.appliedIndex ≥ read.index)

def drainPendingReads (node : Node) : Node × List NodeEffect :=
  match node.readBarrierReady with
  | none => (node, [])
  | some ready =>
    ({ node with pendingReads := node.pendingReads.filter fun read => !node.readIsReady ready read },
      (node.pendingReads.filter (node.readIsReady ready)).map fun read =>
        .readReply read.client read.sequence (readReply node.kv read.command read.at_))

def followerReadAnswer (node : Node) (read : PendingFollowerRead) : Option KvReply :=
  let current := node.raft.leaderId == some read.leader && node.raft.hardState.term == read.term
    && isMember node.raft node.config.id
  if !current then some (.op (.error .invalidInput))
  else match read.grant with
    | none => none
    | some (readIndex, readTime) =>
      if node.kv.appliedIndex ≥ readIndex then some (readReply node.kv read.command readTime) else none

def drainPendingFollowerReads (node : Node) : Node × List NodeEffect :=
  ({ node with
      pendingFollowerReads := node.pendingFollowerReads.filter fun _ read =>
        (node.followerReadAnswer read).isNone },
    node.pendingFollowerReads.toList.filterMap fun entry =>
      (node.followerReadAnswer entry.2).map fun reply => .readReply entry.1.1 entry.1.2 reply)

def drain (node : Node) : Node × List NodeEffect :=
  let (node, reads) := node.drainPendingReads
  let (node, followerReads) := node.drainPendingFollowerReads
  (node, reads ++ followerReads)

def grantMessage (node : Node) (readIndex : Nat) (grant : PendingFollowerGrant) : Message where
  protoVersion := semanticVersionV3
  sender := node.config.id
  target := grant.follower
  term := node.raft.hardState.term
  kind := .followerReadGrant grant.requestId grant.commandHash readIndex grant.requestTime

def finishFollowerReadRound (node : Node) (readIndex : Nat) : Node × List NodeEffect :=
  if !node.followerReadRoundActive then (node, [])
  else
    ({ node with followerReadRoundActive := false, pendingFollowerGrants := ∅ },
      ((node.pendingFollowerGrants.toList.map Prod.snd).filter fun grant =>
        node.raft.role == .leader && node.raft.hardState.term == grant.term
          && node.peerOffers grant.follower followerReadFeature).map fun grant =>
        .send (node.grantMessage readIndex grant))

/-- The first pending read that the grant answers takes it. -/
def acceptFollowerReadGrant (node : Node) (sender : NodeId) (term requestId commandHash readIndex readTime : Nat) :
    Node :=
  if !node.peerOffers sender followerReadFeature || node.raft.leaderId != some sender
      || node.raft.hardState.term != term then node
  else
    match node.pendingFollowerReads.toList.find? fun entry =>
        entry.2.leader == sender && entry.2.term == term && entry.2.requestId == requestId
          && entry.2.commandHash == commandHash with
    | none => node
    | some (route, read) =>
      { node with
        pendingFollowerReads := node.pendingFollowerReads.insert route
          { read with grant := some (readIndex, readTime) } }

/-- Routes of a connection do not outlive the leadership. -/
def dropRoutes (node : Node) : Node :=
  if node.raft.role = .leader then node else { node with routes := ⟨∅, ∅⟩ }

/-- A suffix of the log is gone, and what was reserved for it. -/
def forgetSuffix (node : Node) (index : Nat) : Node :=
  { node with
    routes := ⟨node.routes.client.filter fun route _ => decide (route < index), ∅⟩
    sessionReservations := node.sessionReservations.filter fun route _ => decide (route < index)
    logicalReservations := node.logicalReservations.filter fun route _ => decide (route < index) }

def await (node : Node) (continuation : NodeContinuation) : Node :=
  { node with continuation := some continuation }

/-- What `map_effects` does with a follower's read request. -/
abbrev AcceptRead := Node → NodeId → Nat → Nat → Nat → NodeAttempt

def mapLoop (accept : AcceptRead) : Node → List RaftEffect → List NodeEffect → NodeAttempt
  | node, [], output => (node, .ok output)
  | node, effect :: remaining, output =>
    match effect with
    | .send message => mapLoop accept node remaining (output ++ [.send message])
    | .receiveSnapshotChunk message =>
      mapLoop accept node remaining (output ++ [.receiveSnapshotChunk message])
    | .receiveSnapshotAck message =>
      mapLoop accept node remaining (output ++ [.receiveSnapshotAck message])
    | .persistHard hard => (node.await (.raft remaining), .ok (output ++ [.persistHard hard]))
    | .persistEntries entries =>
      (node.await (.raft remaining), .ok (output ++ [.persistEntries entries]))
    | .truncateSuffix index =>
      ((node.forgetSuffix index).await (.raft remaining), .ok (output ++ [.truncateSuffix index]))
    | .apply entries =>
      match prepareCommittedEntries node.config.policy node.routes node.working entries with
      | (routes, .error halt) => ({ node with routes }, .error halt)
      | (routes, .ok []) => mapLoop accept { node with routes } remaining output
      | (routes, .ok (current :: pending)) =>
        (({ node with routes } : Node).await (.store { current, pending, deferred := [], remaining }),
          .ok (output ++ [.persistStore current.walFrame]))
    | .armTimer id at_ kind => mapLoop accept node remaining (output ++ [.armTimer id at_ kind])
    | .readBarrier _ => mapLoop accept node remaining output
    | .readBarrierReady index =>
      let (node, grants) := { node with readBarrierReady := some index }.finishFollowerReadRound index
      mapLoop accept node remaining (output ++ grants)
    | .followerReadRequest sender requestId commandHash at_ =>
      match accept node sender requestId commandHash at_ with
      | (node, .error halt) => (node, .error halt)
      | (node, .ok effects) => mapLoop accept node remaining (output ++ effects)
    | .followerReadGrant sender term requestId commandHash readIndex readTime =>
      mapLoop accept
        (node.acceptFollowerReadGrant sender term requestId commandHash readIndex readTime) remaining
        output
    | .trace name _ => mapLoop accept node remaining (output ++ [.trace name])

/-- The loop between the clearing of the routes and the reads that are ready now. -/
def mapEffectsWith (accept : AcceptRead) (node : Node) (effects : List RaftEffect) : NodeAttempt :=
  match mapLoop accept node.dropRoutes effects [] with
  | (node, .error halt) => (node, .error halt)
  | (node, .ok output) =>
    let (node, replies) := node.drain
    (node, .ok (output ++ replies))

-- A read barrier asks for no follower read, so the recursion of the source ends here.
def mapBarrier (node : Node) (effects : List RaftEffect) : NodeAttempt :=
  mapEffectsWith (fun node _ _ _ _ => (node, .ok [])) node effects

def acceptFollowerReadRequest : AcceptRead := fun node sender requestId commandHash at_ =>
  if !node.peerOffers sender followerReadFeature || node.raft.role != .leader
      || node.raft.hardState.term == 0 || !isMember node.raft sender
      || decide (node.pendingFollowerGrants.size ≥ node.config.hostLimits.maxPendingPeer) then
    (node, .ok [.trace "follower_read_request_rejected"])
  else if node.pendingFollowerGrants.contains (sender, requestId) then (node, .ok [])
  else
    let node : Node :=
      { node with
        pendingFollowerGrants := node.pendingFollowerGrants.insert (sender, requestId)
          { follower := sender, requestId, commandHash, requestTime := at_
            term := node.raft.hardState.term } }
    if node.followerReadRoundActive then (node, .ok [])
    else match node.raft.requestRead with
      | (raft, .ok effects) => mapBarrier { node with raft, followerReadRoundActive := true } effects
      | (raft, .error _) =>
        ({ node with raft, followerReadRoundActive := false, pendingFollowerGrants := ∅ },
          .ok [.trace "follower_read_barrier_unavailable"])

def mapEffects (node : Node) (effects : List RaftEffect) : NodeAttempt :=
  mapEffectsWith acceptFollowerReadRequest node effects

def raftCall (node : Node) (attempt : RaftNode × Except RaftError (List RaftEffect)) : NodeAttempt :=
  match attempt with
  | (raft, .error error) => ({ node with raft }, fail (.raft error))
  | (raft, .ok effects) => mapEffects { node with raft } effects

def checkpointOf (node : Node) (kv : Kv) (sessions : SessionTable) : Checkpoint where
  clusterId := node.config.clusterId
  clusterPolicy := node.config.policy
  membership := node.raft.membershipStateAt node.kv.appliedIndex
  kv := logicalSnapshot kv kv.lastLeaderTime
  sessions := sessions
  leadershipTransfer := snapshotLeadershipTransfer node.raft

def logicalStateCharge (node : Node) : Except SnapshotCodecError Nat :=
  (CcsnStreamEncoder.new (node.checkpointOf node.kv node.sessions)).map CcsnStreamEncoder.totalLen

def projectedLogicalStateCharge (node : Node) (command : KvCommand) (session : Option (SessionKey × Nat))
    (canonicalCommand : Bytes) (leaderTime : Nat) : Fallible Nat :=
  let policy := node.config.policy
  let index := saturatingAdd node.raft.lastIndex 1
  let term := node.raft.hardState.term
  let apply := fun kv : Kv =>
    kv.applyCommandOnlyWithBatchLimits index term command leaderTime (batchLimits policy)
  let (sessions, kv, outcome) := match session with
    | some (key, sequence) =>
      node.sessions.applyUser policy key sequence canonicalCommand leaderTime apply node.kv
    | none =>
      let (kv, outcome) := apply node.kv
      (node.sessions, kv, outcome)
  match outcome with
  | .panicked => .error .panicked
  | _ =>
    let kv := if kv.appliedIndex < index then kv.markApplied index term leaderTime else kv
    match CcsnStreamEncoder.new (node.checkpointOf kv sessions) with
    | .ok encoder => .ok encoder.totalLen
    | .error _ => fail (.kv .tooLarge)

def uncommitted (raft : RaftNode) : List Entry :=
  raft.log.filter fun entry => decide (entry.index > raft.commitIndex)

def saturatingSum (values : List Nat) : Nat := values.foldl saturatingAdd 0

structure Admission where
  command : KvCommand
  reservation : SessionReservation
  positiveDelta : Nat

def requireActiveFeature (node : Node) (command : KvCommand) : Fallible Unit :=
  if KvCommand.isBatch command && node.raft.activeFeatures &&& atomicBatchFeature == 0 then
    fail .featureDisabled
  else .ok ()

def checkSubmit (node : Node) (session : Option (SessionKey × Nat)) (command : Bytes) (leaderTime : Nat) :
    Fallible Admission := do
  let policy := node.config.policy
  let limits := node.config.hostLimits
  if node.raft.role ≠ .leader then fail .notLeader
  if command.length > policy.maxCommandBytes then fail (.kv .tooLarge)
  let parsed ← (decodeCommand command).mapError fun error => .error (.kv error)
  node.requireActiveFeature parsed
  let _ ← (validateCommandPolicy policy parsed).mapError fun error => .error (.kv error)
  if session.any fun session =>
      session.1.namespaceCode != SessionNamespace.userRequest.code || session.2 == 0 then
    fail (.kv .invalidInput)
  if node.routes.client.size ≥ limits.maxPendingClientRoutes then fail (.kv .busy)
  let waiting := uncommitted node.raft
  if waiting.length ≥ limits.maxUncommittedEntries
      ∨ saturatingAdd (saturatingSum (waiting.map fun entry => entry.payload.length + 25))
        (command.length + 48) > limits.maxUncommittedBytes then fail (.kv .busy)
  let reservation ← match session with
    | none => .ok ⟨0, false⟩
    | some (key, sequence) =>
      (node.sessions.reservationFor policy key sequence command).mapError fun error =>
        .error (.kv error)
  let reserved := node.sessionReservations.toList.map Prod.snd
  if saturatingAdd (saturatingAdd node.sessions.encodedBytes
        (saturatingSum (reserved.map SessionReservation.bytes))) reservation.bytes > policy.maxSessionBytes
      ∨ (reservation.newSession ∧ node.sessions.records.size
          + (reserved.filter SessionReservation.newSession).length ≥ policy.maxSessions) then
    fail (.kv .busy)
  let currentCharge := (node.logicalStateCharge).toOption.getD 0
  let projectedCharge ← node.projectedLogicalStateCharge parsed session command leaderTime
  let positiveDelta := projectedCharge - currentCharge
  let reservedLogical := saturatingSum (node.logicalReservations.toList.map Prod.snd)
  if saturatingAdd (saturatingAdd currentCharge reservedLogical) positiveDelta
      > policy.maxLiveLogicalBytes then fail (.kv .busy)
  return { command := parsed, reservation, positiveDelta }

def proposeCommand (node : Node) (command : KvCommand) (envelope : Bytes) :
    RaftNode × Except RaftError (List RaftEffect) :=
  if KvCommand.isBatch command then node.raft.proposeV3Batch envelope else node.raft.propose envelope

def reserve (node : Node) (route : ClientId × Nat) (admission : Admission) : Node :=
  let index := node.raft.lastIndex
  { node with
    routes := { node.routes with client := node.routes.client.insert index route }
    sessionReservations :=
      if admission.reservation = ⟨0, false⟩ then node.sessionReservations
      else node.sessionReservations.insert index admission.reservation
    logicalReservations :=
      if admission.positiveDelta = 0 then node.logicalReservations
      else node.logicalReservations.insert index admission.positiveDelta }

def submitClient (node : Node) (routeClient : ClientId) (routeReq : Nat)
    (session : Option (SessionKey × Nat)) (command : Bytes) (leaderTime : Nat) : NodeAttempt :=
  match node.checkSubmit session command leaderTime with
  | .error halt => (node, .error halt)
  | .ok admission =>
    let envelope := AppEnvelope.encode { session, leaderTime, command }
    match node.proposeCommand admission.command envelope with
    | (raft, .error error) => ({ node with raft }, fail (.raft error))
    | (raft, .ok effects) =>
      (({ node with raft } : Node).reserve (routeClient, routeReq) admission).mapEffects effects

inductive Input where
  | tick (now : Nat)
  | message (message : Message)
  | messageAt (now : Nat) (message : Message)
  | timer (now : Nat) (kind : TimerKind)
  | persisted (success : Bool)
  | clientRequest (client : ClientId) (sequence : Nat) (command : KvCommand) (leaderTime : Nat)
  | clientBytes (routeClient : ClientId) (routeReq : Nat) (session : Option (SessionKey × Nat))
      (command : Bytes) (leaderTime : Nat)
  | read (client : ClientId) (sequence : Nat) (command : KvCommand) (at_ : Nat)

def pendingInternalSweep (node : Node) (sessions : Bool) : Bool :=
  (node.raft.log.filter fun entry =>
      decide (entry.index > node.raft.appliedIndex) && entry.kind.isApp).any fun entry =>
    match decodeProposal entry with
    | .ok (some envelope) =>
      match decodeCommand envelope.command with
      | .ok (.op (.expireSessions _)) => sessions
      | .ok (.op (.purgeExpired _)) => !sessions
      | _ => false
    | _ => false

def proposeSweep (node : Node) (sweep : KvOp) (now : Nat) : NodeAttempt :=
  node.raftCall (node.raft.propose
    (AppEnvelope.encode { session := none, leaderTime := now, command := encodeCommand (.op sweep) }))

def dueSweep (node : Node) (now : Nat) : Option KvOp :=
  if node.continuation.isSome || node.raft.role != .leader || node.raft.transfer.isSome then none
  else if !node.pendingInternalSweep false
      && node.kv.firstDeadline.any fun entry => decide (entry.1 ≤ now) then
    some (.purgeExpired now)
  else if !node.pendingInternalSweep true
      && (node.sessions.firstExpiry node.config.policy (pinnedAdminSession node.raft)).any
        fun entry => decide (entry.1 ≤ now) then
    some (.expireSessions now)
  else none

def tick (node : Node) (now : Nat) : NodeAttempt :=
  let (raft, effects) := node.raft.tick now
  match mapEffects { node with raft } effects with
  | (node, .error halt) => (node, .error halt)
  | (node, .ok output) =>
    match node.dueSweep now with
    | none => (node, .ok output)
    | some sweep =>
      match node.proposeSweep sweep now with
      | (node, .error halt) => (node, .error halt)
      | (node, .ok more) => (node, .ok (output ++ more))

/-- The state of a durable entry becomes the state of the node. -/
def publishEntry (node : Node) (entry : PreparedCommittedEntry) : Node :=
  { node with
    kv := entry.next.kv
    sessions := entry.next.sessions
    raft := entry.next.raft
    sessionReservations := node.sessionReservations.erase entry.next.raft.appliedIndex
    logicalReservations := node.logicalReservations.erase entry.next.raft.appliedIndex
    routes := match entry.finishedAdminSession with
      | some session => { node.routes with admin := node.routes.admin.erase session }
      | none => node.routes }

/-- After an entry the record of the next one goes out, and after the last the effects
behind them. -/
def publish (node : Node) (state : StoreApplyContinuation) : NodeAttempt :=
  let node := node.publishEntry state.current
  let output := (state.current.reply.map PreparedReply.effect).toList
  let deferred := state.deferred ++ state.current.postEffects
  match state.pending with
  | next :: pending =>
    (node.await (.store { state with current := next, pending, deferred }),
      .ok (output ++ [.persistStore next.walFrame]))
  | [] =>
    match node.mapEffects (deferred ++ state.remaining) with
    | (node, .error halt) => (node, .error halt)
    | (node, .ok more) => (node, .ok (output ++ more))

def persisted (node : Node) (success : Bool) : NodeAttempt :=
  match node.continuation with
  | none => (node, fail .unexpectedPersistenceCompletion)
  | some continuation =>
    let node : Node := { node with continuation := none }
    if !success then (node, fail .durability)
    else match continuation with
      | .raft effects => node.mapEffects effects
      | .store state => node.publish state

def read (node : Node) (client : ClientId) (sequence : Nat) (command : KvCommand) (at_ : Nat) :
    NodeAttempt :=
  let limits := node.config.hostLimits
  let pendingBytes := saturatingSum
    (node.pendingReads.map fun pending => (encodeCommand pending.command).length)
  if node.pendingReads.length ≥ limits.maxPendingReads
      ∨ saturatingAdd pendingBytes (encodeCommand command).length > limits.maxPendingReadBytes then
    (node, fail (.kv .busy))
  else match node.raft.requestRead with
    | (raft, .error error) => ({ node with raft }, fail (.raft error))
    | (raft, .ok effects) =>
      mapEffects
        { node with
          raft
          readBarrierReady := none
          pendingReads := node.pendingReads ++ [⟨client, sequence, command, at_, raft.commitIndex⟩] }
        effects

def settle (node : Node) : Node :=
  if node.raft.role = .leader then node
  else
    { node with
      routes := { node.routes with client := ∅ }
      sessionReservations := ∅
      logicalReservations := ∅
      pendingFollowerGrants := ∅
      followerReadRoundActive := false }

def handle (node : Node) : Input → NodeAttempt
  | .persisted success => node.persisted success
  | .tick now => node.tick now
  | .message message =>
    let (raft, effects) := node.raft.onMessageAt message 0
    mapEffects { node with raft } effects
  | .messageAt now message =>
    let (raft, effects) := node.raft.onMessageAt message now
    mapEffects { node with raft } effects
  | .timer now kind =>
    let (raft, effects) := node.raft.onTimer now kind
    mapEffects { node with raft } effects
  | .clientRequest client sequence command leaderTime =>
    match SessionKey.new SessionNamespace.userRequest.code client with
    | .error _ => (node, fail (.kv .invalidInput))
    | .ok key => node.submitClient client sequence (some (key, sequence)) (encodeCommand command) leaderTime
  | .clientBytes routeClient routeReq session command leaderTime =>
    node.submitClient routeClient routeReq session command leaderTime
  | .read client sequence command at_ => node.read client sequence command at_

def Input.isPersisted : Input → Bool
  | .persisted _ => true
  | _ => false

def onInput (node : Node) (input : Input) : NodeAttempt :=
  if node.continuation.isSome && !input.isPersisted then (node, fail .persistencePending)
  else match node.handle input with
    | (node, .error halt) => (node, .error halt)
    | (node, .ok output) => (node.settle, .ok output)

def observePeerCapability (node : Node) (peer : NodeId) (semanticVersion : Nat) (features : UInt64) :
    NodeAttempt :=
  if peer == 0 || peer == node.config.id || !supportsProtocolVersion semanticVersion then
    (node, fail (.environment "peer capability"))
  else
    ({ node with peerCapabilities := node.peerCapabilities.insert peer ⟨semanticVersion, features⟩ }, .ok [])

def forgetPeerCapability (node : Node) (peer : NodeId) : Node :=
  let grants := node.pendingFollowerGrants.filter fun _ grant => grant.follower != peer
  { node with
    peerCapabilities := node.peerCapabilities.erase peer
    pendingFollowerReads := node.pendingFollowerReads.filter fun _ read => read.leader != peer
    pendingFollowerGrants := grants
    followerReadRoundActive := node.followerReadRoundActive && !grants.isEmpty }

def KvCommand.isPointRead : KvCommand → Bool
  | .op (.get _) | .op (.ttl _) => true
  | _ => false

def requestFollowerRead (node : Node) (client : ClientId) (sequence : Nat) (command : KvCommand) :
    NodeAttempt :=
  if !KvCommand.isPointRead command then (node, fail (.kv .invalidInput))
  else if sequence = 0 ∨ node.raft.role = .leader ∨ !isMember node.raft node.config.id
      ∨ node.pendingFollowerReads.size ≥ node.config.hostLimits.maxPendingClient then
    (node, fail (.environment "follower read unavailable"))
  else match node.raft.leaderId with
    | none => (node, fail (.environment "follower read leader unknown"))
    | some leader =>
      match node.peerCapabilities[leader]? with
      | none => (node, fail (.environment "follower read capability unknown"))
      | some capability =>
        if !capability.offers followerReadFeature then
          (node, fail (.environment "follower read feature unavailable"))
        else if node.pendingFollowerReads.contains (client, sequence) then
          (node, fail (.environment "duplicate follower read route"))
        else
          let commandHash := (fnv1a (encodeCommand command)).toNat
          let term := node.raft.hardState.term
          ({ node with
              pendingFollowerReads := node.pendingFollowerReads.insert (client, sequence)
                { command, requestId := sequence, commandHash, leader, term, grant := none } },
            .ok [.send
              { protoVersion := semanticVersionV3
                sender := node.config.id
                target := leader
                term
                kind := .followerReadRequest sequence commandHash }])

def allPeersOffer (node : Node) (feature : UInt64) : Bool :=
  ((node.raft.voters.toList ++ node.raft.learners.toList).filter (· != node.config.id)).all fun peer =>
    node.peerOffers peer feature

def activateAtomicBatch (node : Node) (now : Nat) : NodeAttempt :=
  if !node.allPeersOffer atomicBatchFeature then (node, fail .featureDisabled)
  else node.raftCall (node.raft.activateFeature atomicBatchFeature now)

def underWay (operationTag : UInt8) (same : Bool) (sourceIndex : Nat) : AdminReply where
  operationTag := operationTag
  result := if same then .inProgress else .requestConflict
  sourceIndex := sourceIndex
  detail := detailText (if same then "workflow-in-progress" else "same-id-different-operation")

def pendingAdminEntry (raft : RaftNode) (session : SessionKey × Nat) : Option Entry :=
  raft.log.find? fun entry =>
    entry.kind.isConfig && entry.envelope?.any fun envelope => envelope.adminSession == some session

def adminAnswer (node : Node) (now : Nat) (session : SessionKey × Nat) (operation : ConfigOperation) :
    Except KvError (Option AdminReply) := do
  let canonical := ConfigEnvelope.encode { adminSession := some session, leaderTime := now, operation }
  match ← node.sessions.previewAdmin node.config.policy session.1 session.2 canonical operation.tag now with
  | some reply => return some reply
  | none =>
    match pendingAdminEntry node.raft session with
    | some entry =>
      return some (underWay operation.tag (sameAdminOperation entry.payload canonical) entry.index)
    | none =>
      match node.raft.transfer with
      | some transfer =>
        if transfer.adminSession = some session then
          return some (underWay operation.tag (operation == .beginLeaderTransfer transfer.target)
            transfer.intentIndex)
        else return none
      | none => return none

def adminPreflight (node : Node) : ConfigOperation → Fallible Unit
  | .addLearner id _ =>
    if node.raft.voters.size + node.raft.learners.size ≥ node.config.policy.maxMembers then
      fail (.kv .busy)
    else if node.raft.activeFeatures &&& atomicBatchFeature != 0
        && !node.peerOffers id atomicBatchFeature then fail .featureDisabled
    else .ok ()
  | .enterJoint newVoters =>
    if newVoters.size < 3 ∨ (!newVoters.contains node.config.id ∧ node.raft.role = .leader) then
      fail (.environment "membership preflight would lose quorum")
    else .ok ()
  | .activateFeature feature =>
    if feature = atomicBatchFeature ∧ !node.allPeersOffer atomicBatchFeature then fail .featureDisabled
    else .ok ()
  | _ => .ok ()

def adminRequest (node : Node) (now : Nat) (client : ClientId) (route : Nat) (session : SessionKey)
    (sequence : Nat) (operation : ConfigOperation) : NodeAttempt :=
  if node.raft.role ≠ .leader then (node, fail .notLeader)
  else if session.namespaceCode ≠ SessionNamespace.adminRequest.code ∨ sequence = 0 then
    (node, fail (.environment "invalid admin request identity"))
  else if !node.routes.admin.contains session
      ∧ node.routes.admin.size ≥ node.config.hostLimits.maxPendingClientRoutes then
    (node, fail (.kv .busy))
  else match node.adminAnswer now (session, sequence) operation with
    | .error error => (node, fail (.kv error))
    | .ok (some reply) => (node, .ok [.adminReply client route reply])
    | .ok none =>
      match node.adminPreflight operation with
      | .error halt => (node, .error halt)
      | .ok _ =>
        match node.raft.proposeAdminConfig
            { adminSession := some (session, sequence), leaderTime := now, operation } with
        | (raft, .error error) => ({ node with raft }, fail (.raft error))
        | (raft, .ok effects) =>
          mapEffects
            { node with
              raft
              routes := { node.routes with
                admin := node.routes.admin.insert session (client, route) } }
            effects

inductive HostCall where
  | addLearner (id : NodeId)
  | promoteLearner (id : NodeId)
  | enterJoint (voters : BTreeSet NodeId)
  | leaveJoint
  | activateAtomicBatch (now : Nat)
  | adminRequest (now : Nat) (client : ClientId) (route : Nat) (session : SessionKey) (sequence : Nat)
      (operation : ConfigOperation)
  | followerRead (client : ClientId) (sequence : Nat) (command : KvCommand)

def hostCall (node : Node) : HostCall → NodeAttempt
  | .addLearner id => node.raftCall (node.raft.addLearner id)
  | .promoteLearner id => node.raftCall (node.raft.promoteLearner id)
  | .enterJoint voters => node.raftCall (node.raft.enterJoint voters)
  | .leaveJoint => node.raftCall node.raft.leaveJoint
  | .activateAtomicBatch now => node.activateAtomicBatch now
  | .adminRequest now client route session sequence operation =>
    node.adminRequest now client route session sequence operation
  | .followerRead client sequence command => node.requestFollowerRead client sequence command

end Node
end CrashCourse.Cluster
