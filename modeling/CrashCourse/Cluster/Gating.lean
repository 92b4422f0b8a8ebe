import CrashCourse.Cluster.Node
import CrashCourse.Core.Outbox

/-!
Nothing that depends on a write leaves the node before the write is durable: the effects
of a step are the queue of an outbox whose barriers are the persistence effects.
-/

namespace CrashCourse.Cluster
open CrashCourse.Core CrashCourse.KeyValue CrashCourse.Raft

def NodeEffect.persists : NodeEffect → Bool
  | .persistHard _ | .persistEntries _ | .truncateSuffix _ | .persistStore _ => true
  | _ => false

def isGrant (message : Message) : Bool :=
  match message.kind with
  | .followerReadGrant .. => true
  | _ => false

def NodeEffect.isReadReply : NodeEffect → Bool
  | .readReply .. => true
  | _ => false

def NodeEffect.servesRead : NodeEffect → Bool
  | .send _ | .readReply .. | .trace _ => true
  | _ => false

theorem NodeEffect.servesRead_of_isReadReply {released : NodeEffect} (reply : released.isReadReply) :
    released.servesRead := by
  cases released with
  | readReply => rfl
  | _ => cases reply

/-- What can wait in a node: an effect of Raft, the record of an entry, and the reply
it makes safe. -/
inductive Held where
  | effect (effect : RaftEffect)
  | record (entry : PreparedCommittedEntry)
  | answer (reply : PreparedReply)

namespace Held

def answers (entry : PreparedCommittedEntry) : List Held := entry.reply.toList.map answer

def records (entries : List PreparedCommittedEntry) : List Held :=
  entries.flatMap fun entry => record entry :: answers entry

def postEffects (entries : List PreparedCommittedEntry) : List RaftEffect :=
  entries.flatMap PreparedCommittedEntry.postEffects

/-- The effects for each item that is no barrier. An `apply` gives way to the records
of its entries and the effects behind them. -/
inductive Emits : Held → List NodeEffect → List Held → Prop
  | send (message : Message) : Emits (effect (.send message)) [.send message] []
  | chunk (message : Message) :
      Emits (effect (.receiveSnapshotChunk message)) [.receiveSnapshotChunk message] []
  | ack (message : Message) :
      Emits (effect (.receiveSnapshotAck message)) [.receiveSnapshotAck message] []
  | timer (id at_ : Nat) (kind : TimerKind) :
      Emits (effect (.armTimer id at_ kind)) [.armTimer id at_ kind] []
  | trace (name : String) (index : Nat) : Emits (effect (.trace name index)) [.trace name] []
  | barrier (index : Nat) : Emits (effect (.readBarrier index)) [] []
  | ready (index : Nat) (messages : List Message) (grants : ∀ message ∈ messages, isGrant message) :
      Emits (effect (.readBarrierReady index)) (messages.map .send) []
  | grant (sender : NodeId) (term requestId commandHash readIndex readTime : Nat) :
      Emits (effect (.followerReadGrant sender term requestId commandHash readIndex readTime)) [] []
  | request (sender : NodeId) (requestId commandHash at_ : Nat) (out : List NodeEffect)
      (reads : ∀ released ∈ out, released.servesRead) :
      Emits (effect (.followerReadRequest sender requestId commandHash at_)) out []
  | apply (policy : ClusterPolicy) (routes left : ReplyRoutes) (working : Working) (entries : List Entry)
      (prepared : List PreparedCommittedEntry)
      (done : prepareCommittedEntries policy routes working entries = (left, .ok prepared)) :
      Emits (effect (.apply entries)) [] (records prepared ++ (postEffects prepared).map effect)
  | answer (reply : PreparedReply) : Emits (answer reply) [reply.effect] []

inductive Barrier : Held → NodeEffect → Prop
  | hard (hard : HardState) : Barrier (effect (.persistHard hard)) (.persistHard hard)
  | entries (entries : List Entry) : Barrier (effect (.persistEntries entries)) (.persistEntries entries)
  | truncate (index : Nat) : Barrier (effect (.truncateSuffix index)) (.truncateSuffix index)
  | store (entry : PreparedCommittedEntry) : Barrier (record entry) (.persistStore entry.walFrame)

def rules : Outbox.Rules Held NodeEffect where
  emits := Emits
  barrier := Barrier
  loose := fun released => released.isReadReply

theorem Barrier.persists {item : Held} {released : NodeEffect} (barrier : Barrier item released) :
    released.persists := by
  cases barrier <;> rfl

def queue : NodeContinuation → List Held
  | .raft effects => effects.map effect
  | .store state =>
    answers state.current ++ records state.pending ++
      (state.deferred ++ state.current.postEffects ++ postEffects state.pending
        ++ state.remaining).map effect

theorem released_answers (entry : PreparedCommittedEntry) :
    Outbox.Released rules (answers entry) (entry.reply.map PreparedReply.effect).toList none := by
  unfold answers
  cases entry.reply with
  | none => exact .done
  | some reply =>
    have last : Outbox.Released rules ([] ++ []) [] none := .done
    exact .item (Emits.answer reply) last

end Held

namespace Node
open Outbox Held
variable {node next : Node} {effects : List RaftEffect} {out : List NodeEffect}

/-- Serving a read neither waits nor asks for a write. -/
def Calm (accept : AcceptRead) : Prop :=
  ∀ node sender requestId commandHash at_, node.continuation = none →
    (accept node sender requestId commandHash at_).1.continuation = none ∧
    ∀ out, (accept node sender requestId commandHash at_).2 = .ok out →
      ∀ released ∈ out, released.servesRead

theorem finishFollowerReadRound_sends (node : Node) (index : Nat) :
    (node.finishFollowerReadRound index).1.continuation = node.continuation ∧
      ∃ messages : List Message, (∀ message ∈ messages, isGrant message) ∧
        (node.finishFollowerReadRound index).2 = messages.map .send := by
  unfold finishFollowerReadRound
  split
  · exact ⟨rfl, [], nofun, rfl⟩
  · refine ⟨rfl, _, fun message member => ?_, (List.map_map ..).symm⟩
    rcases List.mem_map.mp member with ⟨grant, -, rfl⟩
    rfl

theorem acceptFollowerReadGrant_continuation (node : Node) (sender : NodeId)
    (term requestId commandHash readIndex readTime : Nat) :
    (node.acceptFollowerReadGrant sender term requestId commandHash readIndex readTime).continuation =
      node.continuation := by
  unfold acceptFollowerReadGrant
  split
  · rfl
  · split <;> rfl

/-- The loop releases the front of the queue and keeps what is left of it; an error
leaves no continuation. -/
def Loops (effects : List RaftEffect) (output : List NodeEffect) (attempt : NodeAttempt) : Prop :=
  match attempt with
  | (next, .error _) => next.continuation = none
  | (next, .ok out) => ∃ sent, out = output ++ sent ∧
      Released rules (effects.map .effect) sent (next.continuation.map queue)

variable {attempt : NodeAttempt}

theorem Loops.item {effect : RaftEffect} {rest : List RaftEffect} {output step : List NodeEffect}
    (emitted : Emits (.effect effect) step []) (behind : Loops rest (output ++ step) attempt) :
    Loops (effect :: rest) output attempt := by
  rcases attempt with ⟨next, _ | out⟩
  · exact behind
  · rcases behind with ⟨sent, rfl, released⟩
    exact ⟨step ++ sent, List.append_assoc .., .item emitted released⟩

theorem Loops.stop {effect : RaftEffect} {rest : List RaftEffect} {output : List NodeEffect}
    {released : NodeEffect} (barrier : Barrier (.effect effect) released) :
    Loops (effect :: rest) output (node.await (.raft rest), .ok (output ++ [released])) :=
  ⟨[released], rfl, .stop barrier⟩

theorem mapLoop_loops {accept : AcceptRead} (calm : Calm accept) (idle : node.continuation = none)
    (output : List NodeEffect) : Loops effects output (mapLoop accept node effects output) := by
  induction effects generalizing node output with
  | nil =>
    refine ⟨[], (List.append_nil _).symm, ?_⟩
    rw [idle]
    exact .done
  | cons effect rest ih =>
    cases effect with
    | send message => exact .item (.send message) (ih idle _)
    | receiveSnapshotChunk message => exact .item (.chunk message) (ih idle _)
    | receiveSnapshotAck message => exact .item (.ack message) (ih idle _)
    | persistHard hard => exact .stop (.hard hard)
    | persistEntries entries => exact .stop (.entries entries)
    | truncateSuffix index => exact .stop (.truncate index)
    | armTimer id at_ kind => exact .item (.timer id at_ kind) (ih idle _)
    | trace name index => exact .item (.trace name index) (ih idle _)
    | readBarrier index =>
      apply Loops.item (.barrier index)
      rw [List.append_nil]
      exact ih idle _
    | readBarrierReady index =>
      rcases finishFollowerReadRound_sends { node with readBarrierReady := some index } index with
        ⟨kept, messages, grants, sends⟩
      refine .item (.ready index messages grants) ?_
      rw [← sends]
      exact ih (kept.trans idle) _
    | followerReadGrant sender term requestId commandHash readIndex readTime =>
      apply Loops.item (.grant sender term requestId commandHash readIndex readTime)
      rw [List.append_nil]
      exact ih ((acceptFollowerReadGrant_continuation ..).trans idle) _
    | followerReadRequest sender requestId commandHash at_ =>
      have quiet := calm node sender requestId commandHash at_ idle
      revert quiet
      simp only [mapLoop]
      rcases accept node sender requestId commandHash at_ with ⟨next, _ | out⟩ <;> intro quiet
      · exact quiet.1
      · exact .item (.request sender requestId commandHash at_ out (quiet.2 out rfl)) (ih quiet.1 _)
    | apply entries =>
      simp only [mapLoop]
      rcases done : prepareCommittedEntries node.config.policy node.routes node.working entries with
        ⟨routes, _ | _ | ⟨current, pending⟩⟩
      · exact idle
      · apply Loops.item (.apply _ _ _ _ _ _ done)
        rw [List.append_nil]
        exact @ih { node with routes } idle _
      · -- The first record stops the loop; the other records and all effects wait behind it.
        refine ⟨[] ++ [.persistStore current.walFrame], rfl, .item (.apply _ _ _ _ _ _ done) ?_⟩
        have stopped : Released rules (.record current :: (answers current ++ records pending ++
            (current.postEffects ++ postEffects pending ++ rest).map .effect))
            [.persistStore current.walFrame] _ := .stop (.store current)
        simpa [records, postEffects, queue, await] using stopped

def asksRead : RaftEffect → Bool
  | .send _ | .readBarrier _ | .readBarrierReady _ => true
  | _ => false

theorem requestRead_asksRead {raft after : RaftNode} (asked : raft.requestRead = (after, .ok effects)) :
    ∀ effect ∈ effects, asksRead effect := by
  have sends : ∀ node : RaftNode, ∀ effect ∈ node.broadcastAppend, asksRead effect := by
    intro node effect member
    rcases List.mem_flatMap.mp member with ⟨peer, -, here⟩
    rw [List.mem_singleton.mp here]
    rfl
  simp only [RaftNode.requestRead] at asked
  split_ifs at asked <;> cases asked
  · intro effect member
    rcases List.mem_append.mp member with here | last
    · rcases List.mem_cons.mp here with rfl | sent
      · rfl
      · exact sends _ effect sent
    · rw [List.mem_singleton.mp last]
      rfl
  · intro effect member
    rcases List.mem_cons.mp member with rfl | sent
    · rfl
    · exact sends _ effect sent

theorem mapLoop_asksRead {accept : AcceptRead} (asks : ∀ effect ∈ effects, asksRead effect)
    (output : List NodeEffect) (calm : ∀ released ∈ output, released.servesRead) :
    ∃ next out, mapLoop accept node effects output = (next, .ok out) ∧
      next.continuation = node.continuation ∧ ∀ released ∈ out, released.servesRead := by
  induction effects generalizing node output with
  | nil => exact ⟨node, output, rfl, rfl, calm⟩
  | cons effect rest ih =>
    have later : ∀ other ∈ rest, asksRead other :=
      fun other member => asks other (List.mem_cons_of_mem _ member)
    have here := asks effect List.mem_cons_self
    cases effect with
    | send message =>
      apply ih later
      intro released member
      rcases List.mem_append.mp member with old | new
      · exact calm released old
      · rw [List.mem_singleton.mp new]
        rfl
    | readBarrier index => exact ih later output calm
    | readBarrierReady index =>
      rcases finishFollowerReadRound_sends { node with readBarrierReady := some index } index with
        ⟨kept, messages, grants, sends⟩
      have served : ∀ released ∈ output ++
          ({ node with readBarrierReady := some index }.finishFollowerReadRound index).2,
          released.servesRead := by
        intro released member
        rcases List.mem_append.mp member with old | new
        · exact calm released old
        · rw [sends] at new
          rcases List.mem_map.mp new with ⟨message, -, rfl⟩
          rfl
      rcases ih later _ served with ⟨next, out, looped, same, quiet⟩
      exact ⟨next, out, looped, same.trans kept, quiet⟩
    | _ => cases here

theorem drainPendingReads_spec (node : Node) : node.drainPendingReads.1.continuation = node.continuation ∧
      ∀ released ∈ node.drainPendingReads.2, released.isReadReply := by
  unfold drainPendingReads
  split
  · exact ⟨rfl, nofun⟩
  · refine ⟨rfl, fun released member => ?_⟩
    rcases List.mem_map.mp member with ⟨read, -, rfl⟩
    rfl

theorem drainPendingFollowerReads_isReadReply (node : Node) :
    ∀ released ∈ node.drainPendingFollowerReads.2, released.isReadReply := by
  intro released member
  rcases List.mem_filterMap.mp member with ⟨entry, -, answered⟩
  rcases Option.map_eq_some_iff.mp answered with ⟨reply, -, rfl⟩
  rfl

theorem drain_continuation (node : Node) : node.drain.1.continuation = node.continuation :=
  node.drainPendingReads_spec.1

theorem drain_isReadReply (node : Node) : ∀ released ∈ node.drain.2, released.isReadReply := by
  intro released member
  rcases List.mem_append.mp member with own | other
  · exact node.drainPendingReads_spec.2 released own
  · exact drainPendingFollowerReads_isReadReply _ released other

theorem dropRoutes_continuation (node : Node) : node.dropRoutes.continuation = node.continuation := by
  unfold dropRoutes
  split <;> rfl

theorem settle_continuation (node : Node) : node.settle.continuation = node.continuation := by
  unfold settle
  split <;> rfl

theorem mapBarrier_asksRead (asks : ∀ effect ∈ effects, asksRead effect) :
    ∃ next out, node.mapBarrier effects = (next, .ok out) ∧ next.continuation = node.continuation ∧
      ∀ released ∈ out, released.servesRead := by
  rcases @mapLoop_asksRead node.dropRoutes _ (fun node _ _ _ _ => (node, .ok [])) asks [] nofun with
    ⟨next, out, looped, same, quiet⟩
  refine ⟨next.drain.1, out ++ next.drain.2, by simp only [mapBarrier, mapEffectsWith, looped], ?_, ?_⟩
  · rw [drain_continuation, same, dropRoutes_continuation]
  · intro released member
    rcases List.mem_append.mp member with mapped | drained
    · exact quiet released mapped
    · exact NodeEffect.servesRead_of_isReadReply (next.drain_isReadReply released drained)

theorem acceptFollowerReadRequest_calm : Calm acceptFollowerReadRequest := by
  intro node sender requestId commandHash at_ idle
  have traced (name : String) : ∀ out, (Except.ok [NodeEffect.trace name] : Fallible _) = .ok out →
      ∀ released ∈ out, released.servesRead := by
    rintro _ ⟨⟩ released member
    rw [List.mem_singleton.mp member]
    rfl
  simp only [acceptFollowerReadRequest]
  split_ifs
  · exact ⟨idle, traced _⟩
  · exact ⟨idle, by rintro _ ⟨⟩; nofun⟩
  · exact ⟨idle, by rintro _ ⟨⟩; nofun⟩
  · split
    case h_1 raft effects asked =>
      rcases mapBarrier_asksRead (requestRead_asksRead asked) with ⟨next, out, mapped, same, quiet⟩
      rw [mapped]
      exact ⟨same.trans idle, by rintro _ ⟨⟩; exact quiet⟩
    case h_2 => exact ⟨idle, traced _⟩

def Ends (items : List Held) (attempt : NodeAttempt) : Prop :=
  match attempt with
  | (next, .error _) => next.continuation = none
  | (next, .ok out) => Releases rules items out (next.continuation.map queue)

theorem mapEffects_ends (idle : node.continuation = none) : Ends (effects.map .effect) (node.mapEffects effects) := by
  have loops : Loops effects [] (mapLoop acceptFollowerReadRequest node.dropRoutes effects []) :=
    mapLoop_loops acceptFollowerReadRequest_calm ((dropRoutes_continuation node).trans idle) []
  simp only [mapEffects, mapEffectsWith]
  rcases looped : mapLoop acceptFollowerReadRequest node.dropRoutes effects [] with ⟨next, _ | out⟩ <;>
    rw [looped] at loops
  · exact loops
  · rcases loops with ⟨sent, rfl : out = sent, released⟩
    refine ⟨out, next.drain.2, rfl, next.drain_isReadReply, ?_⟩
    rw [drain_continuation]
    exact released

theorem raftCall_ends (idle : node.continuation = none) (attempt : RaftNode × Except RaftError (List RaftEffect)) :
    Ends ((attempt.2.toOption.getD []).map .effect) (node.raftCall attempt) := by
  rcases attempt with ⟨raft, _ | effects⟩
  · exact idle
  · exact @mapEffects_ends { node with raft } _ idle

theorem publish_ends (idle : node.continuation = none) (state : StoreApplyContinuation) :
    Ends (queue (.store state)) (node.publish state) := by
  have answered := released_answers state.current
  rcases state with ⟨current, _ | ⟨next, pending⟩, deferred, remaining⟩
  · have behind := @mapEffects_ends (node.publishEntry current)
      (deferred ++ current.postEffects ++ remaining) idle
    simp only [publish]
    rcases mapped : mapEffects (node.publishEntry current) (deferred ++ current.postEffects ++ remaining)
      with ⟨after, _ | more⟩ <;> rw [mapped] at behind
    · exact behind
    · rcases behind with ⟨sent, loose, rfl, isLoose, released⟩
      refine ⟨_, loose, (List.append_assoc ..).symm, isLoose, ?_⟩
      simpa [queue, records, postEffects] using answered.append_items released
  · have stopped : Released rules (.record next :: (answers next ++ records pending ++
        (deferred ++ current.postEffects ++ next.postEffects ++ postEffects pending ++ remaining).map .effect))
        [.persistStore next.walFrame] _ := .stop (.store next)
    refine ⟨_, [], (List.append_nil _).symm, nofun, ?_⟩
    simpa [queue, records, postEffects, await] using answered.append_items stopped

theorem persisted_ends {held : NodeContinuation} (waits : node.continuation = some held) :
    Ends (queue held) (node.persisted true) := by
  simp only [persisted, waits]
  cases held with
  | raft effects => exact @mapEffects_ends { node with continuation := none } effects rfl
  | store state => exact @publish_ends { node with continuation := none } rfl state

def submitted (node : Node) (session : Option (SessionKey × Nat)) (command : Bytes) (leaderTime : Nat) :
    List RaftEffect :=
  match node.checkSubmit session command leaderTime with
  | .error _ => []
  | .ok admission =>
    ((node.proposeCommand admission.command
      (AppEnvelope.encode { session, leaderTime, command })).2.toOption).getD []

def produced (node : Node) : Input → List RaftEffect
  | .persisted _ => []
  | .tick now => (node.raft.tick now).2
  | .message message => (node.raft.onMessageAt message 0).2
  | .messageAt now message => (node.raft.onMessageAt message now).2
  | .timer now kind => (node.raft.onTimer now kind).2
  | .clientRequest client sequence command leaderTime =>
    match SessionKey.new SessionNamespace.userRequest.code client with
    | .error _ => []
    | .ok key => node.submitted (some (key, sequence)) (encodeCommand command) leaderTime
  | .clientBytes _ _ session command leaderTime => node.submitted session command leaderTime
  | .read .. => (node.raft.requestRead.2.toOption).getD []

def called (node : Node) : HostCall → Option (List RaftEffect)
  | .addLearner id => (node.raft.addLearner id).2.toOption
  | .promoteLearner id => (node.raft.promoteLearner id).2.toOption
  | .enterJoint voters => (node.raft.enterJoint voters).2.toOption
  | .leaveJoint => node.raft.leaveJoint.2.toOption
  | .activateAtomicBatch now => (node.raft.activateFeature atomicBatchFeature now).2.toOption
  | .adminRequest now _ _ session sequence operation =>
    match node.adminAnswer now (session, sequence) operation with
    | .ok none =>
      (node.raft.proposeAdminConfig
        { adminSession := some (session, sequence), leaderTime := now, operation }).2.toOption
    | _ => none
  | .followerRead .. => none

inductive Event where
  | input (input : Input)
  | call (call : HostCall)
  | observePeer (peer : NodeId) (semanticVersion : Nat) (features : UInt64)
  | forgetPeer (peer : NodeId)

/-- One event of the driver. `require_idle_durability` refuses a call while a write is
pending. -/
def perform (node : Node) : Event → NodeAttempt
  | .input input => node.onInput input
  | .call call => if node.continuation.isSome then (node, fail .persistencePending) else node.hostCall call
  | .observePeer peer semanticVersion features => node.observePeerCapability peer semanticVersion features
  | .forgetPeer peer => (node.forgetPeerCapability peer, .ok [])

abbrev Seen := Outbox.Observation Held NodeEffect

def stepSeen (items : List Held) (attempt : NodeAttempt) : List Seen :=
  match attempt.2 with
  | .error _ => [.failed]
  | .ok out => [.step items out]

def sweepProposed (node : Node) (sweep : KvOp) (now : Nat) : List RaftEffect :=
  (node.raft.propose (AppEnvelope.encode
    { session := none, leaderTime := now, command := encodeCommand (.op sweep) })).2.toOption.getD []

def tickSeen (node : Node) (now : Nat) : List Seen :=
  let (raft, effects) := node.raft.tick now
  match mapEffects { node with raft } effects with
  | (_, .error _) => [.failed]
  | (node, .ok output) =>
    match node.dueSweep now with
    | none => [.step (effects.map .effect) output]
    | some sweep =>
      match node.proposeSweep sweep now with
      | (_, .error _) => [.failed]
      | (_, .ok more) =>
        [.step (effects.map .effect) output,
          .step ((node.sweepProposed sweep now).map .effect) more]

def inputSeen (node : Node) (input : Input) : List Seen :=
  if node.continuation.isSome && !input.isPersisted then [.refused]
  else match input with
    | .tick now => node.tickSeen now
    | .persisted success =>
      match (node.persisted success).2 with
      | .error _ => if success then [.failed] else [.completed false []]
      | .ok out => [.completed success out]
    | input => stepSeen ((node.produced input).map .effect) (node.handle input)

def callSeen (called : Option (List RaftEffect)) (attempt : NodeAttempt) : List Seen :=
  match called, attempt.2 with
  | some effects, _ => stepSeen (effects.map .effect) attempt
  | none, .error _ => [.failed]
  | none, .ok out => [.answered out]

def seen (node : Node) : Event → List Seen
  | .input input => node.inputSeen input
  | .call call =>
    if node.continuation.isSome then [.refused]
    else callSeen (node.called call) (node.hostCall call)
  | .observePeer .. | .forgetPeer _ => []

def trace (node : Node) : List Event → List Seen
  | [] => []
  | event :: events => node.seen event ++ (node.perform event).1.trace events

def released (node : Node) : List Event → List NodeEffect
  | [] => []
  | event :: events =>
    (node.perform event).2.toOption.getD [] ++ (node.perform event).1.released events

theorem submitClient_ends (idle : node.continuation = none) (client : ClientId) (route : Nat)
    (session : Option (SessionKey × Nat)) (command : Bytes) (leaderTime : Nat) :
    Ends ((node.submitted session command leaderTime).map .effect)
      (node.submitClient client route session command leaderTime) := by
  simp only [submitClient, submitted]
  rcases node.checkSubmit session command leaderTime with _ | admission
  · exact idle
  simp only []
  rcases node.proposeCommand admission.command
    (AppEnvelope.encode { session, leaderTime, command }) with ⟨raft, _ | effects⟩
  · exact idle
  · exact @mapEffects_ends (({ node with raft } : Node).reserve (client, route) admission) effects idle

theorem read_ends (idle : node.continuation = none) (client : ClientId) (sequence : Nat)
    (command : KvCommand) (at_ : Nat) : Ends ((node.raft.requestRead.2.toOption.getD []).map .effect)
      (node.read client sequence command at_) := by
  simp only [read]
  split_ifs
  · exact idle
  rcases node.raft.requestRead with ⟨raft, _ | effects⟩
  · exact idle
  exact @mapEffects_ends
    { node with
      raft
      readBarrierReady := none
      pendingReads := node.pendingReads ++ [⟨client, sequence, command, at_, raft.commitIndex⟩] }
    effects idle

theorem gated_stepSeen {items : List Held} {rest : List Seen} (ends : Ends items attempt)
    (after : Gated rules (attempt.1.continuation.map queue) rest) :
    Gated rules none (stepSeen items attempt ++ rest) := by
  rcases attempt with ⟨next, _ | out⟩
  · rw [show next.continuation = none from ends] at after
    exact after
  · exact ⟨_, ends, after⟩

theorem out_stepSeen (items : List Held) (attempt : NodeAttempt) :
    (stepSeen items attempt).flatMap Observation.out = attempt.2.toOption.getD [] := by
  rcases attempt with ⟨next, _ | out⟩
  · rfl
  · exact List.append_nil out

theorem idle_of_dueSweep {now : Nat} {sweep : KvOp} (due : node.dueSweep now = some sweep) :
    node.continuation = none := by
  unfold dueSweep at due
  cases waits : node.continuation with
  | none => rfl
  | some held => simp [waits] at due

structure Shows (before : Option (List Held)) (seen : List Seen) (attempt : NodeAttempt) : Prop where
  gated : ∀ rest, Gated rules (attempt.1.continuation.map queue) rest → Gated rules before (seen ++ rest)
  out : seen.flatMap Observation.out = attempt.2.toOption.getD []

theorem Ends.shows {items : List Held} (ends : Ends items attempt) : Shows none (stepSeen items attempt) attempt where
  gated _ := gated_stepSeen ends
  out := out_stepSeen items attempt

theorem tick_shows (idle : node.continuation = none) (now : Nat) :
    Shows none (node.tickSeen now) (node.tick now) := by
  rcases ticked : node.raft.tick now with ⟨raft, effects⟩
  have ends := @mapEffects_ends { node with raft } effects idle
  simp only [tickSeen, tick, ticked]
  rcases mapped : mapEffects { node with raft } effects with ⟨next, _ | output⟩ <;> rw [mapped] at ends
  · exact ends.shows
  dsimp only
  rcases due : next.dueSweep now with _ | sweep
  · exact ends.shows
  have free := idle_of_dueSweep due
  have more := raftCall_ends free (next.raft.propose (AppEnvelope.encode
    { session := none, leaderTime := now, command := encodeCommand (.op sweep) }))
  dsimp only
  rcases proposed : next.proposeSweep sweep now with ⟨last, _ | sent⟩ <;>
    rw [← proposeSweep, proposed] at more
  · constructor
    · intro rest after
      exact gated_stepSeen more after
    · rfl
  · constructor
    · intro rest after
      refine ⟨next.continuation.map queue, ends, ?_⟩
      rw [free]
      exact gated_stepSeen more after
    · exact congrArg (output ++ ·) (List.append_nil sent)

theorem persisted_shows (node : Node) (success : Bool) : Shows (node.continuation.map queue)
      (match (node.persisted success).2 with
        | .error _ => if success then [.failed] else [.completed false []]
        | .ok out => [.completed success out])
      (node.persisted success) := by
  rcases waits : node.continuation with _ | held
  · -- A completion that nobody asked for is an error and changes nothing.
    have nothing : node.persisted success = (node, fail .unexpectedPersistenceCompletion) := by
      simp only [persisted, waits]
    rw [nothing]
    cases success with
    | false => exact ⟨fun rest after => ⟨rfl, by rwa [waits] at after⟩, rfl⟩
    | true => exact ⟨fun rest after => by rwa [waits] at after, rfl⟩
  · cases success with
    | false =>
      have dropped : node.persisted false = ({ node with continuation := none }, fail .durability) := by
        simp only [persisted, waits]
        rfl
      rw [dropped]
      exact ⟨fun rest after => ⟨rfl, after⟩, rfl⟩
    | true =>
      have ends := persisted_ends waits
      rcases completed : node.persisted true with ⟨next, _ | out⟩ <;> rw [completed] at ends
      · refine ⟨fun rest after => ?_, rfl⟩
        rw [show next.continuation = none from ends] at after
        exact after
      · exact ⟨fun rest after => ⟨_, ends, after⟩, List.append_nil out⟩

theorem Shows.settle {before : Option (List Held)} {seen : List Seen} :
    Shows before seen attempt → Shows before seen (match attempt with
      | (node, .error halt) => (node, .error halt)
      | (node, .ok output) => (node.settle, .ok output)) := by
  rcases attempt with ⟨next, _ | out⟩ <;> intro handled
  · exact handled
  · refine ⟨fun rest after => handled.gated rest ?_, handled.out⟩
    rw [settle_continuation] at after
    exact after

theorem handle_ends (idle : node.continuation = none) (input : Input) (other : !input.isPersisted)
    (noTick : ∀ now, input ≠ .tick now) : Ends ((node.produced input).map .effect) (node.handle input) := by
  cases input with
  | persisted success => cases other
  | tick now => exact absurd rfl (noTick now)
  | message message => exact @mapEffects_ends { node with raft := (node.raft.onMessageAt message 0).1 } _ idle
  | messageAt now message =>
    exact @mapEffects_ends { node with raft := (node.raft.onMessageAt message now).1 } _ idle
  | timer now kind => exact @mapEffects_ends { node with raft := (node.raft.onTimer now kind).1 } _ idle
  | clientRequest client sequence command leaderTime =>
    simp only [handle, produced]
    rcases SessionKey.new SessionNamespace.userRequest.code client with _ | key
    · exact idle
    · exact submitClient_ends idle ..
  | clientBytes routeClient routeReq session command leaderTime => exact submitClient_ends idle ..
  | read client sequence command at_ => exact read_ends idle ..

theorem onInput_shows (node : Node) (input : Input) :
    Shows (node.continuation.map queue) (node.inputSeen input) (node.onInput input) := by
  unfold inputSeen onInput
  split
  next pending =>
    rcases Option.isSome_iff_exists.mp (Bool.and_eq_true_iff.mp pending).1 with ⟨held, waits⟩
    refine ⟨fun rest after => ?_, rfl⟩
    rw [waits] at after ⊢
    exact after
  next free =>
    apply Shows.settle
    cases input with
    | persisted success => exact node.persisted_shows success
    | tick now =>
      have idle : node.continuation = none := by simpa [Input.isPersisted] using free
      rw [idle]
      exact tick_shows idle now
    | _ =>
      have idle : node.continuation = none := by simpa [Input.isPersisted] using free
      rw [idle]
      refine (handle_ends idle _ rfl ?_).shows
      nofun

section
variable (idle : node.continuation = none)
include idle

theorem failed_shows (called : Option (List RaftEffect)) (halt : Halt) :
    Shows none (callSeen called (node, .error halt)) (node, .error halt) := by
  have ends : Ends ((called.getD []).map .effect) (node, .error halt) := idle
  cases called with
  | none | some effects => exact ends.shows

theorem answered_shows (calm : ∀ released ∈ out, ¬ NodeEffect.persists released) :
    Shows none (callSeen none (node, .ok out)) (node, .ok out) := by
  constructor
  · intro rest after
    rw [idle] at after
    exact ⟨fun released member item barrier => calm released member barrier.persists, after⟩
  · exact List.append_nil out

theorem raftCall_shows (attempt : RaftNode × Except RaftError (List RaftEffect)) :
    Shows none (callSeen attempt.2.toOption (node.raftCall attempt)) (node.raftCall attempt) := by
  have ends := raftCall_ends idle attempt
  rcases attempt with ⟨raft, _ | effects⟩
  · exact ends.shows
  · exact ends.shows

theorem requestFollowerRead_shows (client : ClientId) (sequence : Nat)
    (command : KvCommand) : Shows none (callSeen none (node.requestFollowerRead client sequence command))
      (node.requestFollowerRead client sequence command) := by
  have failed (error : NodeError) := failed_shows idle none (.error error)
  unfold requestFollowerRead
  split
  · exact failed _
  split
  · exact failed _
  split
  · exact failed _
  split
  · exact failed _
  split
  · exact failed _
  split
  · exact failed _
  -- The read is on its way to the leader; the request does not wait for any write.
  apply answered_shows
  · exact idle
  · intro released member
    rw [List.mem_singleton.mp member]
    nofun

theorem adminRequest_shows (now : Nat) (client : ClientId) (route : Nat)
    (session : SessionKey) (sequence : Nat) (operation : ConfigOperation) : Shows none
      (callSeen (node.called (.adminRequest now client route session sequence operation))
        (node.adminRequest now client route session sequence operation))
      (node.adminRequest now client route session sequence operation) := by
  unfold adminRequest
  split
  · exact failed_shows idle _ _
  split
  · exact failed_shows idle _ _
  split
  · exact failed_shows idle _ _
  simp only [called]
  rcases node.adminAnswer now (session, sequence) operation with _ | _ | reply
  · exact failed_shows idle _ _
  · dsimp only
    rcases node.adminPreflight operation with _ | _
    · exact failed_shows idle _ _
    dsimp only
    rcases node.raft.proposeAdminConfig
      { adminSession := some (session, sequence), leaderTime := now, operation } with
      ⟨raft, _ | effects⟩
    · exact @failed_shows { node with raft } idle none _
    refine (@mapEffects_ends
      { node with
        raft
        routes := { node.routes with
          admin := node.routes.admin.insert session (client, route) } }
      effects idle).shows
  · apply answered_shows idle
    intro released member
    rw [List.mem_singleton.mp member]
    nofun

theorem hostCall_shows (call : HostCall) :
    Shows none (callSeen (node.called call) (node.hostCall call)) (node.hostCall call) := by
  cases call with
  | addLearner | promoteLearner | enterJoint | leaveJoint => exact raftCall_shows idle _
  | activateAtomicBatch now =>
    simp only [hostCall, activateAtomicBatch]
    split
    · exact failed_shows idle _ _
    · exact raftCall_shows idle _
  | adminRequest => exact adminRequest_shows idle ..
  | followerRead => exact requestFollowerRead_shows idle ..

end

theorem perform_shows (node : Node) (event : Event) :
    Shows (node.continuation.map queue) (node.seen event) (node.perform event) := by
  cases event with
  | input input => exact node.onInput_shows input
  | call call =>
    simp only [seen, perform]
    split
    next pending =>
      rcases Option.isSome_iff_exists.mp pending with ⟨held, waits⟩
      refine ⟨fun rest after => ?_, rfl⟩
      rw [waits] at after ⊢
      exact after
    next free =>
      have idle : node.continuation = none := by simpa using free
      rw [idle]
      exact hostCall_shows idle call
  | observePeer peer semanticVersion features =>
    simp only [seen, perform, observePeerCapability]
    split
    · exact ⟨fun rest after => after, rfl⟩
    · exact ⟨fun rest after => after, rfl⟩
  | forgetPeer peer => exact ⟨fun rest after => after, rfl⟩

/-- In every run, from any state, nothing behind a persistence effect leaves the node
before its completion; what waits leaves in its order and once; a failed completion or
an error drops it. -/
theorem held_until_durable (node : Node) (events : List Event) :
    Gated rules (node.continuation.map queue) (node.trace events) ∧
      (node.trace events).flatMap Observation.out = node.released events := by
  induction events generalizing node with
  | nil =>
    refine ⟨?_, rfl⟩
    cases node.continuation <;> trivial
  | cons event events ih =>
    have first := node.perform_shows event
    have later := ih (node.perform event).1
    refine ⟨first.gated _ later.1, ?_⟩
    simp only [trace, released]
    rw [List.flatMap_append, first.out, later.2]

def after (node : Node) (events : List Event) : Node :=
  events.foldl (fun node event => (node.perform event).1) node

def readerConfig : NodeConfig where
  id := 2
  clusterId := [1]
  seed := 2
  raft := .default
  store := .default
  policy := .default
  hostLimits := .default

def peerMessage (sender : NodeId) (term : Nat) (kind : MessageKind) : Message :=
  { protoVersion := semanticVersionV3, sender, target := 2, term, kind }

def readAsked : List Event := [
  .input (.message (peerMessage 1 1 (.appendReq
    { prevIndex := 0, prevTerm := 0, entries := [], leaderCommit := 0, readRound := 0 }))),
  .input (.persisted true),
  .observePeer 1 semanticVersionV3 followerReadFeature,
  .call (.followerRead 7 1 (.op (.get [1])))]

/-- The only entry does not decode, and it is committed. -/
def garbledAppend : List Event := [
  .input (.message (peerMessage 1 1 (.appendReq
    { prevIndex := 0, prevTerm := 0, entries := [⟨1, 1, .app, []⟩], leaderCommit := 1, readRound := 0 }))),
  .input (.persisted true)]

/-- A campaign ends the read in the call that asks for the new term to be written, and
the reply leaves with that request. What is held behind an entry that cannot be applied
never leaves, although every write succeeds. -/
theorem read_reply_overtakes_write :
    ((new readerConfig (Std.ExtTreeSet.ofList [1, 2, 3] compare)).toOption.bind fun node =>
      ((node.after readAsked).perform (.input (.message (peerMessage 3 2 (.voteReq 0 0))))).2.toOption) =
      some [.persistHard ⟨2, none⟩, .readReply 7 1 (.op (.error .invalidInput))] ∧
    ((new readerConfig (Std.ExtTreeSet.ofList [1, 2, 3] compare)).toOption.map fun node =>
      ((node.after garbledAppend).continuation.any fun held => (queue held).any fun
        | .effect (.send _) => true
        | _ => false,
      (node.after (garbledAppend ++ [.input (.persisted true)])).continuation.isNone,
      node.released (garbledAppend ++ [.input (.persisted true)]))) =
      some (true, true, [.persistHard ⟨1, none⟩, .persistEntries [⟨1, 1, .app, []⟩]]) := by
  decide +kernel

end Node
end CrashCourse.Cluster
