import CrashCourse.Raft.Membership

/-!
The transitions of `RaftNode`. Each function returns the node after it, also when it
fails, with the effects in the order of the source.
-/

namespace CrashCourse.Raft
open CrashCourse.Core
namespace RaftNode

abbrev Step := RaftNode × List RaftEffect
abbrev Attempt := RaftNode × Except RaftError (List RaftEffect)

/-! ### Quorums -/

def majority (node : RaftNode) : Nat := node.voters.size / 2 + 1

def countIn (votes members : BTreeSet NodeId) : Nat :=
  (votes.toList.filter members.contains).length

def hasMajority (node : RaftNode) (votes : BTreeSet NodeId) : Bool :=
  match node.joint with
  | some (old, new) =>
    decide (countIn votes old > old.size / 2) && decide (countIn votes new > new.size / 2)
  | none => decide (countIn votes node.voters ≥ node.majority)

def holdsIndex (node : RaftNode) (candidate : Nat) (member : NodeId) : Bool :=
  member == node.id || node.matchIndex[member]?.any fun index => decide (index ≥ candidate)

def countHolding (node : RaftNode) (candidate : Nat) (members : BTreeSet NodeId) : Nat :=
  (members.toList.filter (node.holdsIndex candidate)).length

def commitQuorum (node : RaftNode) (candidate : Nat) : Bool :=
  match node.joint with
  | none => decide (node.countHolding candidate node.voters ≥ node.majority)
  | some (old, new) =>
    decide (node.countHolding candidate old > old.size / 2)
      && decide (node.countHolding candidate new > new.size / 2)

/-! ### Commit and apply -/

/-- The `while applied_index < commit_index` loop; `fuel` is the distance left. -/
def collectCommitted (log : List Entry) : Nat → Nat → List Entry
  | 0, _ => []
  | fuel + 1, applied =>
    match log.find? fun entry => entry.index == applied + 1 with
    | some entry => entry :: collectCommitted log fuel (applied + 1)
    | none => []

def applyCommitted (node : RaftNode) : Step :=
  let applied := collectCommitted node.log (node.commitIndex - node.appliedIndex) node.appliedIndex
  ({ node with appliedIndex := node.appliedIndex + applied.length },
    if applied.isEmpty then [] else [.apply applied])

/-- The largest index above the commit index that a quorum holds and that carries the
current term, if any. -/
def committable (node : RaftNode) : Nat :=
  (List.range' (node.commitIndex + 1) (node.lastIndex - node.commitIndex)).foldl
    (fun newCommit candidate =>
      if node.commitQuorum candidate && node.termAt candidate == some node.hardState.term
      then candidate else newCommit) node.commitIndex

def advanceCommit (node : RaftNode) : Step :=
  if node.committable > node.commitIndex then
    applyCommitted { node with commitIndex := node.committable }
  else (node, [])

/-! ### Replication -/

def appendSemanticVersion (entries : List Entry) : Nat :=
  if entries.any fun entry => entry.kind.requiresSemanticV3 then semanticVersionV3
  else protocolVersion

def sendAppend (node : RaftNode) (peer : NodeId) : List RaftEffect :=
  let next := node.nextIndex[peer]?.getD (node.lastIndex + 1)
  let prevIndex := next - 1
  let prevTerm := (node.termAt prevIndex).getD 0
  let entries :=
    (node.log.filter fun entry => decide (entry.index ≥ next)).take node.config.maxEntriesPerAppend
  [.send
    { protoVersion := appendSemanticVersion entries
      sender := node.id
      target := peer
      term := node.hardState.term
      kind := .appendReq
        { prevIndex, prevTerm, entries
          leaderCommit := node.commitIndex
          readRound := node.readRound } }]

def replicationTargets (node : RaftNode) : List NodeId :=
  (node.voters.toList ++ node.learners.toList ++ node.retiringPeers.keys).filter (· != node.id)

def broadcastAppend (node : RaftNode) : List RaftEffect :=
  node.replicationTargets.flatMap node.sendAppend

def replicatePeer (node : RaftNode) (peer : NodeId) : Attempt :=
  if node.role ≠ .leader || peer == node.id
      || (!node.voters.contains peer && !node.learners.contains peer) then
    (node, .error .invalidMessage)
  else (node, .ok (node.sendAppend peer))

/-! ### Configuration appends -/

def removedVoters (node : RaftNode) : ConfigOperation → List NodeId
  | .leaveJoint _ =>
    match node.joint with
    | some (old, new) => old.toList.filter fun id => !new.contains id
    | none => []
  | _ => []

def configEntry (node : RaftNode) (envelope : ConfigEnvelope) : Entry where
  term := node.hardState.term
  index := node.lastIndex + 1
  kind := match envelope.operation with
    | .activateFeature _ => .configV3
    | _ => .config
  payload := envelope.encode

def appendConfig (node : RaftNode) (envelope : ConfigEnvelope) : Attempt :=
  let removed := node.removedVoters envelope.operation
  let entry := node.configEntry envelope
  match node.applyConfigOnAppend entry with
  | .error error => (node, .error error)
  | .ok projected =>
    let node : RaftNode :=
      { projected with
        log := projected.log ++ [entry]
        retiringPeers := projected.retire removed entry.index }
    (node, .ok
      (.persistEntries [entry] :: node.broadcastAppend
        ++ (removed.filter (· != node.id)).flatMap node.sendAppend))

def finishLeadershipTransfer (node : RaftNode) (result : TransferResult) (leaderTime : Nat) :
    Attempt :=
  match node.transfer with
  | none => (node, .error .invalidMessage)
  | some transfer =>
    if transfer.finishing then (node, .error .transferInProgress)
    else
      let marked : RaftNode := { node with transfer := some { transfer with finishing := true } }
      match marked.appendConfig
          { adminSession := transfer.adminSession
            leaderTime
            operation := .finishLeaderTransfer transfer.intentIndex result } with
      | (node, .ok effects) => (node, .ok effects)
      | (node, .error error) =>
        ({ node with transfer := some { transfer with finishing := false } }, .error error)

/-! ### Elections -/

def memberRole (node : RaftNode) : Role :=
  if node.voters.contains node.id then .follower else .learner

/-- Records of peers that are neither voters nor learners are left alone. -/
def resetProgress (node : RaftNode) (next : Nat) : RaftNode :=
  let peers := (node.voters.toList ++ node.learners.toList).filter (· != node.id)
  { node with
    nextIndex := peers.foldl (fun progress peer => progress.insert peer next) node.nextIndex
    matchIndex := peers.foldl (fun progress peer => progress.insert peer 0) node.matchIndex }

/-- The `LeaveJoint` a new leader owes a committed, operator-owned `EnterJoint`. -/
def owedLeave (node : RaftNode) : Option ConfigEnvelope := do
  let enterIndex ← node.jointEnterIndex
  guard (node.commitIndex ≥ enterIndex)
  let enter ← (← node.entryAt enterIndex).envelope?
  guard (enter.operation matches .enterJoint _)
  guard enter.adminSession.isSome
  return { adminSession := enter.adminSession
           leaderTime := enter.leaderTime
           operation := .leaveJoint enterIndex }

/-- The terminal entry a new leader owes an open transfer; a failed append is dropped. -/
def settleTransfer (node : RaftNode) : Step :=
  let node := node.resyncTransferFinishing
  match node.transfer with
  | some transfer =>
    if transfer.finishing then (node, node.broadcastAppend)
    else
      let result : TransferResult :=
        if node.id = transfer.target then .success else .superseded
      match node.finishLeadershipTransfer result transfer.deadline with
      | (node, .ok finish) => (node, finish)
      | (node, .error _) => (node, node.broadcastAppend)
  | none => (node, node.broadcastAppend)

def noopEntry (node : RaftNode) : Entry where
  term := node.hardState.term
  index := node.lastIndex + 1
  kind := .noop
  payload := []

/-- Leadership up to the durable no-op, before commit and open workflows. -/
def takeOffice (node : RaftNode) : RaftNode :=
  let elected : RaftNode :=
    { node with
      role := .leader
      leaderId := some node.id
      log := node.log ++ [node.noopEntry] }
  { elected.resetProgress (elected.lastIndex + 1) with
    heardQuorum := (∅ : BTreeSet NodeId).insert node.id
    quorumDeadline := 0 }

def becomeLeader (node : RaftNode) : Step :=
  let (leader, applied) := node.takeOffice.advanceCommit
  let effects := .persistEntries [node.noopEntry] :: applied
  match leader.owedLeave with
  | some envelope =>
    match leader.appendConfig envelope with
    | (leader, .ok finish) => (leader, effects ++ finish)
    | (leader, .error _) =>
      let (leader, rest) := leader.settleTransfer
      (leader, effects ++ rest)
  | none =>
    let (leader, rest) := leader.settleTransfer
    (leader, effects ++ rest)

def startElection (node : RaftNode) : Step :=
  if !node.voters.contains node.id then
    ({ node with role := .learner, preVotes := ∅, votes := ∅ }, [])
  else
    let candidate : RaftNode :=
      { node with
        role := .candidate
        hardState := ⟨node.hardState.term + 1, some node.id⟩
        votes := (∅ : BTreeSet NodeId).insert node.id }
    if candidate.hasMajority candidate.votes then
      let (leader, effects) := candidate.becomeLeader
      (leader, .persistHard candidate.hardState :: effects)
    else
      (candidate, .persistHard candidate.hardState ::
        (candidate.voters.toList.filter (· != candidate.id)).map fun peer =>
          .send
            { protoVersion := protocolVersion
              sender := candidate.id
              target := peer
              term := candidate.hardState.term
              kind := .voteReq candidate.lastIndex candidate.lastTerm })

def startPreVote (node : RaftNode) (now : Nat) : Step :=
  if !node.voters.contains node.id then
    (resetElection { node with role := .learner, preVotes := ∅, votes := ∅ } now, [])
  else
    let candidate := resetElection
      { node with
        role := .candidate
        preVotes := (∅ : BTreeSet NodeId).insert node.id
        votes := ∅ } now
    if candidate.hasMajority candidate.preVotes then candidate.startElection
    else
      (candidate, (candidate.voters.toList.filter (· != candidate.id)).map fun peer =>
        .send
          { protoVersion := protocolVersion
            sender := candidate.id
            target := peer
            term := candidate.hardState.term + 1
            kind := .preVoteReq candidate.lastIndex candidate.lastTerm })

def preVoteResponse (node : RaftNode) (message : Message) (lastIndex : Nat)
    (lastTerm : Nat) : RaftEffect :=
  let granted := decide (message.term ≥ node.hardState.term + 1)
    && node.logIsUpToDate lastIndex lastTerm && node.role != .learner
  .send
    { protoVersion := protocolVersion
      sender := node.id
      target := message.sender
      term := message.term
      kind := .preVoteResp granted }

def voteRequest (node : RaftNode) (message : Message) (lastIndex : Nat) (lastTerm : Nat)
    (now : Nat) : Step :=
  let granted := message.term == node.hardState.term
    && node.voters.contains message.sender
    && (node.hardState.votedFor.all (· == message.sender))
    && node.role != .learner
    && node.logIsUpToDate lastIndex lastTerm
  let (node, effects) : Step :=
    if granted then
      let voted : RaftNode :=
        { node with hardState := { node.hardState with votedFor := some message.sender } }
      (voted.resetElection now, [.persistHard voted.hardState])
    else (node, [])
  (node, effects ++ [.send
    { protoVersion := protocolVersion
      sender := node.id
      target := message.sender
      term := node.hardState.term
      kind := .voteResp granted }])

/-! ### AppendEntries -/

def makeAppendResponse (node : RaftNode) (message : Message) (success : Bool)
    (matchIndex : Nat) (conflictTerm : Option Nat) (conflictIndex : Nat) : RaftEffect :=
  let readRound := match message.kind with
    | .appendReq request => request.readRound
    | _ => 0
  .send
    { protoVersion := protocolVersion
      sender := node.id
      target := message.sender
      term := node.hardState.term
      kind := .appendResp { success, matchIndex, conflictTerm, conflictIndex, readRound } }

/-- The tail of one iteration; `.error` is the early return with the effects of the
whole call. -/
def pushEntry (node : RaftNode) (message : Message) (entry : Entry) (effects : List RaftEffect) :
    Except (List RaftEffect) RaftNode :=
  if entry.index ≠ node.lastIndex + 1 then
    .error (effects ++ [.trace "append_gap_rejected" entry.index,
      node.makeAppendResponse message false node.lastIndex none (node.lastIndex + 1)])
  else if entry.kind.isConfig then
    match node.applyConfigOnAppend entry with
    | .error _ => .error [.trace "invalid_config_rejected" entry.index]
    | .ok projected => .ok { projected with log := projected.log ++ [entry] }
  else .ok { node with log := node.log ++ [entry] }

def truncateSuffix (node : RaftNode) (index : Nat) : RaftNode :=
  rebuildMembershipFromLog
    { node with log := node.log.filter fun existing => decide (existing.index < index) }

/-- The loop over `request.entries`, with the effects and the entries so far; `.error`
is an early return. -/
def appendLoop (message : Message) : List Entry → RaftNode → List RaftEffect → List Entry →
    RaftNode × Except (List RaftEffect) (List RaftEffect × List Entry)
  | [], node, effects, appended => (node, .ok (effects, appended))
  | entry :: rest, node, effects, appended =>
    match node.entryAt entry.index with
    | some existing =>
      if existing.term = entry.term then appendLoop message rest node effects appended
      else if entry.index ≤ node.commitIndex then
        (node, .error (effects ++ [.trace "committed_conflict_rejected" entry.index]))
      else
        let truncated := node.truncateSuffix entry.index
        let effects := effects ++ [.truncateSuffix entry.index]
        match truncated.pushEntry message entry effects with
        | .error effects => (truncated, .error effects)
        | .ok pushed => appendLoop message rest pushed effects (appended ++ [entry])
    | none =>
      match node.pushEntry message entry effects with
      | .error effects => (node, .error effects)
      | .ok pushed => appendLoop message rest pushed effects (appended ++ [entry])

/-- Commit and acknowledge after the whole request went in. -/
def acknowledgeAppend (node : RaftNode) (message : Message) (request : AppendRequest)
    (effects : List RaftEffect) (appended : List Entry) : Step :=
  let effects := if appended.isEmpty then effects else effects ++ [.persistEntries appended]
  let (node, applied) : Step :=
    if request.leaderCommit > node.commitIndex then
      applyCommitted { node with commitIndex := min request.leaderCommit node.lastIndex }
    else (node, [])
  (node, effects ++ applied
    ++ [node.makeAppendResponse message true node.lastIndex none 0])

def appendRequest (node : RaftNode) (message : Message) (request : AppendRequest) (now : Nat) :
    Step :=
  if message.term < node.hardState.term then
    (node, [node.makeAppendResponse message false node.lastIndex none node.lastIndex])
  else
    -- the source first turns a candidate into a follower; this assignment covers it
    let node := resetElection
      { node with role := node.memberRole, leaderId := some message.sender } now
    if node.termAt request.prevIndex ≠ some request.prevTerm then
      let conflictIndex :=
        if request.prevIndex > node.lastIndex then node.lastIndex + 1
        else max request.prevIndex (node.snapshotIndex + 1)
      (node, [node.makeAppendResponse message false node.lastIndex
        (node.termAt request.prevIndex) conflictIndex])
    else
      match appendLoop message request.entries node [] [] with
      | (node, .error effects) => (node, effects)
      | (node, .ok (effects, appended)) => node.acknowledgeAppend message request effects appended

def timeoutNowEffect (node : RaftNode) (target : NodeId) (intentIndex : Nat) : RaftEffect :=
  .send
    { protoVersion := protocolVersion
      sender := node.id
      target
      term := node.hardState.term
      kind := .timeoutNow intentIndex }

/-- The success arm of `append_response_from_peer`, up to the read round. -/
def recordMatch (node : RaftNode) (peer : NodeId) (response : AppendResponse) : RaftNode :=
  { node with
    matchIndex := node.matchIndex.insert peer response.matchIndex
    nextIndex := node.nextIndex.insert peer (response.matchIndex + 1)
    heardQuorum :=
      if node.voters.contains peer then node.heardQuorum.insert peer else node.heardQuorum }

/-- Count the acknowledgement for the open read round and close it on a quorum. -/
def countReadAck (node : RaftNode) (peer : NodeId) (response : AppendResponse) : Step :=
  let node : RaftNode :=
    { node with
      readAcks :=
        if node.voters.contains peer && response.readRound == node.readRound
        then node.readAcks.insert peer else node.readAcks }
  match node.readIndex with
  | some index =>
    if node.hasMajority node.readAcks then
      ({ node with readIndex := none }, [.readBarrierReady index])
    else (node, [])
  | none => (node, [])

def transferReady (node : RaftNode) (peer : NodeId) (response : AppendResponse) :
    List RaftEffect :=
  match node.transfer with
  | some transfer =>
    if node.role = .leader && !transfer.finishing && transfer.target == peer
        && decide (node.commitIndex ≥ transfer.intentIndex)
        && decide (response.matchIndex ≥ transfer.intentIndex) then
      [node.timeoutNowEffect peer transfer.intentIndex]
    else []
  | none => []

def appendResponseFromPeer (node : RaftNode) (peer : NodeId) (response : AppendResponse) : Step :=
  if response.success then
    let (node, applied) := (node.recordMatch peer response).advanceCommit
    let (node, ready) := node.countReadAck peer response
    let more :=
      if node.nextIndex[peer]?.any fun next => decide (next ≤ node.lastIndex)
      then node.sendAppend peer else []
    (node, applied ++ ready ++ node.transferReady peer response ++ more)
  else
    let node : RaftNode :=
      { node with nextIndex := node.nextIndex.insert peer (max response.conflictIndex 1) }
    (node, node.sendAppend peer)

def appendResponse (node : RaftNode) (message : Message) (response : AppendResponse) (now : Nat) :
    Step :=
  if node.role ≠ .leader || message.term ≠ node.hardState.term
      || (!node.voters.contains message.sender && !node.learners.contains message.sender
        && !node.retiringPeers.contains message.sender) then (node, [])
  else if response.success then
    let node : RaftNode := { node with lastContact := node.lastContact.insert message.sender now }
    match node.retiringPeers[message.sender]?.filter fun retiring =>
        decide (response.matchIndex ≥ retiring.terminal) with
    | some retiring =>
      if node.commitIndex < retiring.terminal then
        -- the effects of this call are dropped by the source
        ((node.appendResponseFromPeer message.sender response).1, [])
      else if !retiring.farewellSent then
        let node : RaftNode :=
          { node with
            retiringPeers :=
              node.retiringPeers.insert message.sender { retiring with farewellSent := true } }
        (node, node.sendAppend message.sender)
      else
        ({ node with
            retiringPeers := node.retiringPeers.erase message.sender
            nextIndex := node.nextIndex.erase message.sender
            matchIndex := node.matchIndex.erase message.sender
            addresses := node.addresses.erase message.sender }, [])
    | none => node.appendResponseFromPeer message.sender response
  else node.appendResponseFromPeer message.sender response

/-! ### Message dispatch -/

def snapshotAckEffect (node : RaftNode) (message : Message) (transferId nextOffset : Nat)
    (accepted : Bool) (reason : Option SnapshotRejectReason) : RaftEffect :=
  .send
    { protoVersion := protocolVersion
      sender := node.id
      target := message.sender
      term := node.hardState.term
      kind := .snapshotAck transferId nextOffset accepted reason }

def snapshotChunk (node : RaftNode) (message : Message) (chunk : SnapshotChunk) :
    List RaftEffect :=
  let refuse (reason : SnapshotRejectReason) : List RaftEffect :=
    [node.snapshotAckEffect message chunk.transferId 0 false (some reason)]
  let finish := chunk.offset + chunk.data.length
  if chunk.lastIncludedIndex < node.snapshotIndex || chunk.lastIncludedIndex < node.appliedIndex
      || (chunk.lastIncludedIndex == node.snapshotIndex
        && chunk.lastIncludedTerm != node.snapshotTerm) then refuse .staleTerm
  else if finish > u64Max then refuse .tooLarge
  else if chunk.transferId == 0 || chunk.totalLen == 0 || decide (chunk.totalLen > maxCodecBytes)
      || chunk.data.isEmpty || decide (chunk.data.length > snapshotChunkBytes)
      || decide (finish > chunk.totalLen) || chunk.done != (finish == chunk.totalLen) then
    refuse .corrupt
  else [.receiveSnapshotChunk message]

def observesTerm : MessageKind → Bool
  | .preVoteReq .. | .preVoteResp .. => false
  | _ => true

/-- A newer term ends every tally and every role of the older one. -/
def observeTerm (node : RaftNode) (message : Message) : Step :=
  if decide (message.term > node.hardState.term) && observesTerm message.kind then
    let node : RaftNode :=
      { node with
        hardState := ⟨message.term, none⟩
        role := node.memberRole
        leaderId := none
        votes := ∅
        preVotes := ∅ }
    (node, [.persistHard node.hardState])
  else (node, [])

def timeoutNowValid (node : RaftNode) (message : Message) (intentIndex : Nat) : Bool :=
  intentIndex != 0 && message.term == node.hardState.term && node.leaderId == some message.sender
    && node.voters.contains node.id && decide (node.appliedIndex ≥ intentIndex)
    && node.transfer.any fun transfer =>
      transfer.intentIndex == intentIndex && transfer.target == node.id

def dispatch (node : RaftNode) (message : Message) (now : Nat) : Step :=
  match message.kind with
  | .preVoteReq lastIndex lastTerm => (node, [node.preVoteResponse message lastIndex lastTerm])
  | .preVoteResp granted =>
    if (node.role = .follower || node.role = .candidate)
        && message.term == node.hardState.term + 1 && granted then
      let node : RaftNode := { node with preVotes := node.preVotes.insert message.sender }
      if node.hasMajority node.preVotes then node.startElection else (node, [])
    else (node, [])
  | .voteReq lastIndex lastTerm => node.voteRequest message lastIndex lastTerm now
  | .voteResp granted =>
    if node.role = .candidate && message.term == node.hardState.term && granted then
      let node : RaftNode := { node with votes := node.votes.insert message.sender }
      if node.hasMajority node.votes then node.becomeLeader else (node, [])
    else (node, [])
  | .appendReq request => node.appendRequest message request now
  | .appendResp response => node.appendResponse message response now
  | .snapshotChunk chunk => (node, node.snapshotChunk message chunk)
  | .snapshotAck _ nextOffset accepted _ =>
    let node : RaftNode :=
      if accepted && message.term == node.hardState.term then
        { node with lastContact := node.lastContact.insert message.sender now }
      else node
    (node, [.receiveSnapshotAck message, .trace "snapshot_ack" nextOffset])
  | .timeoutNow intentIndex =>
    if node.timeoutNowValid message intentIndex then node.startElection
    else (node, [.trace "timeout_now_rejected" intentIndex])
  | .followerReadRequest requestId commandHash =>
    if message.protoVersion == semanticVersionV3 && requestId != 0
        && message.term == node.hardState.term && node.role = .leader then
      (node, [.followerReadRequest message.sender requestId commandHash now])
    else (node, [.trace "follower_read_request_rejected" node.lastIndex])
  | .followerReadGrant requestId commandHash readIndex readTime =>
    if message.protoVersion == semanticVersionV3 && requestId != 0
        && message.term == node.hardState.term && node.leaderId == some message.sender then
      (node, [.followerReadGrant message.sender message.term requestId commandHash readIndex
        readTime])
    else (node, [.trace "follower_read_grant_rejected" readIndex])

def onMessageAt (node : RaftNode) (message : Message) (now : Nat) : Step :=
  if !supportsProtocolVersion message.protoVersion then
    (node, [.trace "proto_version_rejected" node.lastIndex])
  else
    let (node, observed) := node.observeTerm message
    let (node, effects) := node.dispatch message now
    (node, observed ++ effects)

/-! ### Timers -/

def transferNudge (node : RaftNode) : List RaftEffect :=
  match node.transfer with
  | some transfer =>
    if node.role = .leader && !transfer.finishing && transfer.target != node.id
        && decide (node.commitIndex ≥ transfer.intentIndex)
        && node.matchIndex[transfer.target]?.any fun index =>
          decide (index ≥ transfer.intentIndex) then
      [node.timeoutNowEffect transfer.target transfer.intentIndex]
    else []
  | none => []

/-- The quorum watch of `tick`: `.error` is the step-down return. -/
def checkQuorum (node : RaftNode) (now : Nat) : Except Step RaftNode :=
  let restarted : RaftNode :=
    { node with
      heardQuorum := (∅ : BTreeSet NodeId).insert node.id
      quorumDeadline := now + node.config.electionMin }
  if node.role = .leader ∧ node.quorumDeadline = 0 then .ok restarted
  else if node.role = .leader ∧ now ≥ node.quorumDeadline then
    if node.hasMajority node.heardQuorum then .ok restarted
    else
      let follower := resetElection { restarted with role := .follower, leaderId := none } now
      .error (follower, [.trace "checkquorum_stepdown" follower.lastIndex])
  else .ok node

def tickTimers (node : RaftNode) (now : Nat) : Step :=
  if node.role = .leader ∧ now ≥ node.heartbeatDeadline then
    let node : RaftNode := { node with heartbeatDeadline := now + node.config.heartbeat }
    (node, node.broadcastAppend ++ node.transferNudge
      ++ [.armTimer (saturatingAdd (min (node.id.toNat * 2) u64Max) 1) node.heartbeatDeadline
        .heartbeat])
  else if node.role ≠ .leader ∧ now ≥ node.electionDeadline then node.startPreVote now
  else (node, [])

def tickQuorum (node : RaftNode) (now : Nat) : Step :=
  match node.checkQuorum now with
  | .error step => step
  | .ok node => node.tickTimers now

def tick (node : RaftNode) (now : Nat) : Step :=
  let node := node.resyncTransferFinishing
  if node.role = .leader
      && node.transfer.any fun transfer => !transfer.finishing && decide (now ≥ transfer.deadline)
  then
    match node.finishLeadershipTransfer .timeout now with
    | (node, .ok effects) => (node, effects)
    | (node, .error _) => node.tickQuorum now
  else node.tickQuorum now

def onTimer (node : RaftNode) (now : Nat) (timer : TimerKind) : Step :=
  if node.role = .leader then (node, node.broadcastAppend ++ node.transferNudge)
  else
    match timer with
    | .election => node.startPreVote now
    | .heartbeat => (node, [])

/-! ### Proposals -/

def proposeWithKind (node : RaftNode) (payload : Bytes) (kind : EntryKind) : Attempt :=
  if node.role ≠ .leader then (node, .error .notLeader)
  else if node.transfer.isSome then (node, .error .transferInProgress)
  else
    let outstanding :=
      (node.nextIndex.values.filter fun next => decide (next ≤ node.lastIndex)).length
    if outstanding ≥ node.config.pipelineWindow * max node.voters.size 1 then (node, .error .busy)
    else
      let entry : Entry :=
        { term := node.hardState.term, index := node.lastIndex + 1, kind, payload }
      let (node, applied) := advanceCommit { node with log := node.log ++ [entry] }
      (node, .ok (.persistEntries [entry] :: applied ++ node.broadcastAppend))

def propose (node : RaftNode) (payload : Bytes) : Attempt := node.proposeWithKind payload .app

def proposeV3Batch (node : RaftNode) (payload : Bytes) : Attempt :=
  if (node.activeFeatures &&& atomicBatchFeature) == 0 then (node, .error .busy)
  else node.proposeWithKind payload .appV3

def currentTermIsCommitted (node : RaftNode) : Bool :=
  (decide (node.snapshotIndex ≤ node.commitIndex) && node.snapshotTerm == node.hardState.term)
    || node.log.any fun entry =>
      entry.term == node.hardState.term && decide (entry.index ≤ node.commitIndex)

def requestRead (node : RaftNode) : Attempt :=
  if node.role ≠ .leader then (node, .error .notLeader)
  else if node.transfer.isSome then (node, .error .transferInProgress)
  else if !node.currentTermIsCommitted then (node, .error .readBarrierNotReady)
  else
    let node : RaftNode :=
      { node with
        readRound := saturatingAdd node.readRound 1
        readAcks := (∅ : BTreeSet NodeId).insert node.id
        readIndex := some node.commitIndex }
    let effects := .readBarrier node.commitIndex :: node.broadcastAppend
    if node.hasMajority node.readAcks then
      ({ node with readIndex := none }, .ok (effects ++ [.readBarrierReady node.commitIndex]))
    else (node, .ok effects)

/-! ### Membership calls -/

def addLearner (node : RaftNode) (id : NodeId) : Attempt :=
  if node.role ≠ .leader then (node, .error .notLeader)
  else if id == 0 || node.joint.isSome || node.voters.contains id || node.learners.contains id
      || node.uncommittedMembershipChange
      || node.configTransitionInFlightBefore (node.lastIndex + 1) then
    (node, .error .invalidMessage)
  else node.appendConfig { adminSession := none, leaderTime := 0, operation := .addLearner id none }

def enterJoint (node : RaftNode) (newVoters : BTreeSet NodeId) : Attempt :=
  if node.role ≠ .leader then (node, .error .notLeader)
  else if node.joint.isSome || newVoters.isEmpty || newVoters.any (· == 0)
      || node.uncommittedMembershipChange then (node, .error .busy)
  else
    let entry := node.configEntry
      { adminSession := none, leaderTime := 0, operation := .enterJoint newVoters }
    match node.applyConfigOnAppend entry with
    | .error error => (node, .error error)
    | .ok projected =>
      let (node, applied) := advanceCommit { projected with log := projected.log ++ [entry] }
      (node, .ok (.persistEntries [entry] :: applied ++ node.broadcastAppend))

def promoteLearner (node : RaftNode) (id : NodeId) : Attempt :=
  if node.role ≠ .leader then (node, .error .notLeader)
  else if !node.learners.contains id then (node, .error .invalidMessage)
  else if node.matchIndex[id]?.all fun index => decide (index < node.lastIndex) then
    (node, .error .busy)
  else node.enterJoint (node.voters.insert id)

def leaveJoint (node : RaftNode) : Attempt :=
  if node.role ≠ .leader then (node, .error .notLeader)
  else if node.joint.isNone then (node, .error .invalidMessage)
  else
    match node.jointEnterIndex with
    | none => (node, .error .invalidMessage)
    | some enterIndex =>
      if node.commitIndex < enterIndex then (node, .error .busy)
      else
        node.appendConfig
          { adminSession := none, leaderTime := 0, operation := .leaveJoint enterIndex }

def beginLeadershipTransfer (node : RaftNode) (target : NodeId) (leaderTime : Nat) : Attempt :=
  if node.role ≠ .leader then (node, .error .notLeader)
  else if node.joint.isSome || node.transfer.isSome then (node, .error .transferInProgress)
  else if !node.voters.contains target
      || (target != node.id
        && node.matchIndex[target]?.all fun index => decide (index < node.lastIndex)) then
    (node, .error .busy)
  else
    node.appendConfig { adminSession := none, leaderTime, operation := .beginLeaderTransfer target }

def activateFeature (node : RaftNode) (feature : UInt64) (leaderTime : Nat) : Attempt :=
  if node.role ≠ .leader then (node, .error .notLeader)
  else if feature != atomicBatchFeature || (node.activeFeatures &&& feature) != 0
      || node.joint.isSome then (node, .error .busy)
  else node.appendConfig { adminSession := none, leaderTime, operation := .activateFeature feature }

def contactIsRecent (node : RaftNode) (leaderTime : Nat) (peer : NodeId) : Bool :=
  peer == node.id || node.lastContact[peer]?.any fun contact =>
    decide (leaderTime - contact ≤ node.config.leaderTransferTimeout)

def readyLearner (node : RaftNode) (leaderTime : Nat) (added : NodeId) : Bool :=
  node.learners.contains added
    && !(node.matchIndex[added]?.all fun index => decide (index < node.commitIndex))
    && node.contactIsRecent leaderTime added

/-- The per-operation admission rule of `propose_admin_config`. -/
def adminRefusal (node : RaftNode) (envelope : ConfigEnvelope) : Option RaftError :=
  let nextIndex := node.lastIndex + 1
  match envelope.operation with
  | .addLearner id address =>
    match address with
    | none => some .invalidMessage
    | some address =>
      if id == 0 || node.joint.isSome || node.voters.contains id || node.learners.contains id
          || node.addresses.values.any (· == address) || node.uncommittedMembershipChange
          || node.configTransitionInFlightBefore nextIndex then some .invalidMessage
      else none
  | .removeLearner id =>
    if node.joint.isSome || !node.learners.contains id || node.uncommittedMembershipChange
        || node.configTransitionInFlightBefore nextIndex then some .invalidMessage
    else none
  | .updateAddress id address =>
    if node.joint.isSome || (!node.voters.contains id && !node.learners.contains id)
        || node.addresses.toList.any (fun (peer, existing) => peer != id && existing == address)
        || node.uncommittedMembershipChange
        || node.configTransitionInFlightBefore nextIndex then some .invalidMessage
    else none
  | .enterJoint newVoters =>
    let recent := node.contactIsRecent envelope.leaderTime
    if node.joint.isSome || newVoters.isEmpty || newVoters == node.voters
        || newVoters.any (· == 0) || node.uncommittedMembershipChange
        || node.configTransitionInFlightBefore nextIndex then some .busy
    else if !(newVoters.toList.filter fun id => !node.voters.contains id).all
        (node.readyLearner envelope.leaderTime) then some .busy
    else if (node.voters.toList.filter recent).length ≤ node.voters.size / 2
        || (newVoters.toList.filter recent).length ≤ newVoters.size / 2 then some .busy
    else none
  | .leaveJoint enterIndex =>
    if node.joint.isNone || node.jointEnterIndex != some enterIndex
        || decide (node.commitIndex < enterIndex) then some .busy
    else none
  | .beginLeaderTransfer target =>
    if node.joint.isSome || node.transfer.isSome then some .transferInProgress
    else if !node.voters.contains target
        || (target != node.id
          && ((node.matchIndex[target]?.all fun index => decide (index < node.commitIndex))
            || !node.contactIsRecent envelope.leaderTime target)) then some .busy
    else none
  | .activateFeature feature =>
    if feature != atomicBatchFeature || (node.activeFeatures &&& feature) != 0
        || node.joint.isSome || node.configTransitionInFlightBefore nextIndex then some .busy
    else none
  | .finishLeaderTransfer .. => some .invalidMessage

def proposeAdminConfig (node : RaftNode) (envelope : ConfigEnvelope) : Attempt :=
  if node.role ≠ .leader then (node, .error .notLeader)
  else
    match envelope.adminSession with
    | none => (node, .error .invalidMessage)
    | some (session, sequence) =>
      if session.namespaceCode ≠ SessionNamespace.adminRequest.code ∨ sequence = 0 then
        (node, .error .invalidMessage)
      else
        match node.adminRefusal envelope with
        | some error => (node, .error error)
        | none => node.appendConfig envelope

/-! ### Committed configuration -/

def applyCommittedConfig (node : RaftNode) (entry : Entry) : Attempt :=
  if !entry.kind.isConfig then (node, .error .invalidMessage)
  else
    match entry.envelope? with
    | none => (node, .error .invalidMessage)
    | some envelope =>
      match envelope.operation with
      | .addLearner id _ =>
        if node.role = .leader && node.learners.contains id then (node, .ok (node.sendAppend id))
        else (node, .ok [])
      | .beginLeaderTransfer target =>
        if node.transfer.isSome || !node.voters.contains target then
          (node, .error .invalidMessage)
        else
          let node : RaftNode :=
            { node with
              transfer := some
                { intentIndex := entry.index
                  target
                  deadline := envelope.leaderTime + node.config.leaderTransferTimeout
                  finishing := false
                  adminSession := envelope.adminSession } }
          if node.role = .leader && target == node.id then
            node.finishLeadershipTransfer .success envelope.leaderTime
          else if node.role = .leader
              && node.matchIndex[target]?.any fun index => decide (index ≥ entry.index) then
            (node, .ok [node.timeoutNowEffect target entry.index])
          else (node, .ok [])
      | .finishLeaderTransfer intentIndex _ =>
        if node.transfer.any fun transfer => transfer.intentIndex == intentIndex then
          ({ node with transfer := none }, .ok [])
        else (node, .error .invalidMessage)
      | .activateFeature feature =>
        if feature != atomicBatchFeature || (node.activeFeatures &&& feature) != 0 then
          (node, .error .invalidMessage)
        else ({ node with activeFeatures := node.activeFeatures ||| feature }, .ok [])
      | _ => (node, .ok [])

/-! ### Snapshot base -/

def installSnapshotState (node : RaftNode) (index : Nat) (term : Nat) : RaftNode :=
  if index < node.snapshotIndex ∨ (index = node.snapshotIndex ∧ term ≠ node.snapshotTerm) then node
  else
    { node with
      log := node.log.filter fun entry => decide (entry.index > index)
      commitIndex := max node.commitIndex index
      appliedIndex := max node.appliedIndex index
      snapshotIndex := index
      snapshotTerm := term }

def restoreLeadershipTransfer (node : RaftNode) (transfer : Option LeadershipTransfer) :
    RaftNode × Except RaftError Unit :=
  match transfer with
  | none => ({ node with transfer := none }, .ok ())
  | some transfer =>
    if transfer.intentIndex == 0
        || (transfer.target == node.id && !node.voters.contains node.id)
        || !node.voters.contains transfer.target then (node, .error .invalidMessage)
    else ({ node with transfer := some transfer }, .ok ())

end RaftNode
end CrashCourse.Raft
