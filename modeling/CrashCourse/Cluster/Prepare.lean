import CrashCourse.Cluster.Admin
import CrashCourse.KeyValue.Delta

/-!
How a node turns committed entries into records for its store, on a working copy.
-/

namespace CrashCourse.Cluster
open CrashCourse.Core CrashCourse.KeyValue CrashCourse.Raft

inductive NodeError where
  | raft (error : RaftError)
  | kv (error : KvError)
  | notLeader
  | durability
  | unexpectedPersistenceCompletion
  | persistencePending
  | featureDisabled
  | environment (reason : String)
  | malformedCommittedEntry (index : Nat)
  deriving DecidableEq, Repr

inductive Halt where
  | error (error : NodeError)
  | panicked
  deriving DecidableEq, Repr

abbrev Fallible (α : Type) := Except Halt α

def fail {α : Type} (error : NodeError) : Fallible α := .error (.error error)

namespace AppEnvelope

def decodeSession : KvDecode (Option (SessionKey × Nat)) := do
  let hasSession ← kvField Dec.u8
  let namespaceCode ← kvField Dec.u8
  let client ← kvField Dec.u64
  let sequence ← kvField Dec.u64
  if hasSession = 0 ∧ namespaceCode = 0 ∧ UInt64.ofNat client = 0 ∧ sequence = 0 then return none
  else if hasSession = 1 ∧ sequence ≠ 0 then
    match SessionKey.new namespaceCode (UInt64.ofNat client) with
    | .ok key => return some (key, sequence)
    | .error error => throw (.decode error)
  else throw .invalidInput

def decodeBody : KvDecode AppEnvelope := do
  kvField (Dec.header appEnvelopeMagic appEnvelopeVersion)
  let session ← decodeSession
  let leaderTime ← kvField Dec.u64
  let command ← kvField Dec.bytesField
  return { session, leaderTime, command }

def decode (bytes : Bytes) : Except KvError AppEnvelope := do
  match openRecord bytes with
  | .error _ => throw .invalidInput
  | .ok body =>
    let envelope ← decodeBody.run body
    let _ ← decodeCommand envelope.command
    return envelope

end AppEnvelope

def decodeProposal (entry : Entry) : Except KvError (Option AppEnvelope) :=
  if !entry.kind.isApp || entry.payload.isEmpty then .ok none
  else (AppEnvelope.decode entry.payload).map some

def KvCommand.isBatch : KvCommand → Bool
  | .batch _ => true
  | .op _ => false

structure Working where
  kv : Kv
  sessions : SessionTable
  raft : RaftNode

inductive PreparedReply where
  | kv (client : ClientId) (route : Nat) (reply : KvReply)
  | admin (client : ClientId) (route : Nat) (reply : AdminReply)
  deriving DecidableEq

structure PreparedCommittedEntry where
  next : Working
  walFrame : Bytes
  reply : Option PreparedReply
  finishedAdminSession : Option SessionKey
  postEffects : List RaftEffect

structure Carried where
  next : Working
  kind : StoreEntryKind
  canonicalCommand : Bytes
  cachedReply : Bytes
  clientReply : Option KvReply
  adminReply : Option (SessionKey × AdminReply)
  postEffects : List RaftEffect

def pinnedAdminSession (raft : RaftNode) : Option SessionKey :=
  (raft.log.filter fun entry =>
      decide (entry.index > raft.appliedIndex) && entry.kind.isConfig).findSome? fun entry =>
    entry.envelope?.bind fun envelope => envelope.adminSession.map Prod.fst

/-- The decoding and the checks of an application entry. -/
def checkProposal (policy : ClusterPolicy) (activeFeatures : UInt64) (entry : Entry) :
    Fallible Proposal := do
  let malformed := NodeError.malformedCommittedEntry entry.index
  let .ok (some envelope) := decodeProposal entry | fail malformed
  if envelope.command.length > policy.maxCommandBytes then fail malformed
  let .ok command := decodeCommand envelope.command | fail malformed
  if (entry.kind == .appV3) != KvCommand.isBatch command then fail malformed
  if KvCommand.isBatch command && activeFeatures &&& atomicBatchFeature == 0 then fail malformed
  if let .error _ := validateCommandPolicy policy command then fail malformed
  if envelope.session.any fun session =>
      session.1.namespaceCode != SessionNamespace.userRequest.code || session.2 == 0 then
    fail malformed
  return { index := entry.index, term := entry.term, session := envelope.session
           leaderTime := envelope.leaderTime, command, canonical := envelope.command }

def carryApp (policy : ClusterPolicy) (working : Working) (entry : Entry) : Fallible Carried := do
  let proposal ← checkProposal policy working.raft.activeFeatures entry
  let (kv, sessions, outcome) :=
    applyProposal policy (pinnedAdminSession working.raft) working.kv working.sessions proposal
  match outcome with
  | .panicked => .error .panicked
  | .failed error => fail (.kv error)
  | .done reply =>
    return { next := { working with kv, sessions }
             kind := .app
             canonicalCommand := proposal.canonical
             cachedReply := encodeReply reply
             clientReply := some reply
             adminReply := none
             postEffects := [] }

def raftStep (attempt : RaftNode × Except RaftError (List RaftEffect)) :
    Fallible (RaftNode × List RaftEffect) :=
  match attempt with
  | (raft, .ok effects) => .ok (raft, effects)
  | (_, .error error) => fail (.raft error)

def carryAdmin (policy : ClusterPolicy) (working : Working) (entry : Entry) (envelope : ConfigEnvelope)
    (session : SessionKey × Nat) (canonicalCommand : Bytes) (operationTag replyTag : UInt8)
    (result : AdminResultTag) : Fallible Carried :=
  let mutate := fun raft : RaftNode =>
    match raft.applyCommittedConfig entry with
    | (raft, .ok effects) => (raft, .ok (AdminReply.mk replyTag result entry.index [], effects))
    | (raft, .error error) => (raft, .error error)
  match working.sessions.applyAdmin
      { policy, key := session.1, sequence := session.2, canonicalCommand, operationTag
        sourceIndex := entry.index, at_ := envelope.leaderTime } mutate working.raft with
  | (_, _, .error error) => fail (.raft error)
  | (sessions, raft, .ok (reply, effects)) =>
    .ok { next := { working with sessions, raft }
          kind := .config
          canonicalCommand := entry.payload
          cachedReply := reply.encode
          clientReply := none
          adminReply := some (session.1, reply)
          postEffects := effects }

def carryPlain (working : Working) (entry : Entry) (raft : RaftNode) (postEffects : List RaftEffect) :
    Carried where
  next := { working with raft }
  kind := .config
  canonicalCommand := entry.payload
  cachedReply := []
  clientReply := none
  adminReply := none
  postEffects := postEffects

/-- The payload of the `EnterJoint` that a `LeaveJoint` of the same session closes. -/
def enterJointPayload (raft : RaftNode) (enterIndex : Nat) (session : SessionKey × Nat) :
    Option Bytes := do
  let candidate ← raft.entryAt enterIndex
  let begun ← candidate.envelope?
  guard (begun.adminSession = some session ∧ begun.operation matches .enterJoint _)
  return candidate.payload

def transferResultTag : TransferResult → AdminResultTag
  | .success => .transferSuccess
  | .timeout => .transferTimeout
  | .superseded => .transferSuperseded

def carryConfig (policy : ClusterPolicy) (working : Working) (entry : Entry) : Fallible Carried := do
  let malformed := NodeError.malformedCommittedEntry entry.index
  let .ok envelope := ConfigEnvelope.decode entry.payload | fail malformed
  if (entry.kind == .configV3) != (envelope.operation matches .activateFeature _) then fail malformed
  let working := { working with kv := working.kv.markApplied entry.index entry.term envelope.leaderTime }
  match envelope.adminSession, envelope.operation with
  | some session, .enterJoint _ =>
    let (raft, effects) ← raftStep (working.raft.applyCommittedConfig entry)
    if raft.role = .leader then
      let (raft, more) ← raftStep (raft.proposeAdminConfig
        { adminSession := some session
          leaderTime := envelope.leaderTime
          operation := .leaveJoint entry.index })
      return carryPlain working entry raft (effects ++ more)
    else return carryPlain working entry raft effects
  | some session, .leaveJoint enterIndex =>
    let some original := enterJointPayload working.raft enterIndex session | fail malformed
    let tag := (ConfigOperation.enterJoint ∅).tag
    carryAdmin policy working entry envelope session original tag tag .applied
  | some session, .finishLeaderTransfer intentIndex result =>
    let some original := canonicalTransferIntent working.raft intentIndex session | fail malformed
    let some transfer := working.raft.transfer | fail malformed
    carryAdmin policy working entry envelope session original
      (ConfigOperation.beginLeaderTransfer transfer.target).tag 6 (transferResultTag result)
  | some _, .beginLeaderTransfer _ | none, _ =>
    let (raft, effects) ← raftStep (working.raft.applyCommittedConfig entry)
    return carryPlain working entry raft effects
  | some session, operation =>
    carryAdmin policy working entry envelope session entry.payload operation.tag operation.tag .applied

def carryEntry (policy : ClusterPolicy) (working : Working) (entry : Entry) : Fallible Carried :=
  match entry.kind with
  | .app | .appV3 => carryApp policy working entry
  | .config | .configV3 => carryConfig policy working entry
  | .noop =>
    .ok { next := { working with kv := working.kv.markApplied entry.index entry.term 0 }
          kind := .noop
          canonicalCommand := []
          cachedReply := []
          clientReply := none
          adminReply := none
          postEffects := [] }

def sessionNamespaceCode : UInt8 := 3
def tombstoneNamespaceCode : UInt8 := 4

def SessionKey.bytes (key : SessionKey) : Bytes := Enc.u8 key.namespaceCode ++ Enc.u64 key.client.toNat

def SessionRecord.encode (record : SessionRecord) : Bytes :=
  Enc.u64 record.maxSeq ++ Enc.u64 record.lastActive ++ Enc.bytes record.canonicalCommand
    ++ Enc.bytes record.cachedReply

def SessionTombstone.encode (tombstone : SessionTombstone) : Bytes :=
  Enc.u64 tombstone.maxSeq ++ Enc.u64 tombstone.expiresAt

def SessionTable.delta (before after : SessionTable) : List StoreMetadataEdit :=
  ((unionKeys before.records after.records).filterMap fun key =>
    edited before.records[key]? after.records[key]?
      (fun record => .upsert sessionNamespaceCode (SessionKey.bytes key) record.encode)
      (.delete sessionNamespaceCode (SessionKey.bytes key))) ++
  (unionKeys before.tombstones after.tombstones).filterMap fun key =>
    edited before.tombstones[key]? after.tombstones[key]?
      (fun tombstone => .upsert tombstoneNamespaceCode (SessionKey.bytes key) tombstone.encode)
      (.delete tombstoneNamespaceCode (SessionKey.bytes key))

def applyRecord (base : Working) (entry : Entry) (carried : Carried) : StoreApplyBatch where
  entryKind := carried.kind
  watermark := ⟨entry.index, entry.term, carried.next.kv.lastLeaderTime⟩
  mutations := (base.kv.storeDelta carried.next.kv).1
  metadata := (base.kv.storeDelta carried.next.kv).2 ++ base.sessions.delta carried.next.sessions
  canonicalCommand := carried.canonicalCommand
  cachedReply := carried.cachedReply

structure ReplyRoutes where
  client : BTreeMap Nat (ClientId × Nat)
  admin : BTreeMap SessionKey (ClientId × Nat)

def routedReply (routes : ReplyRoutes) (entry : Entry) (carried : Carried) : Option PreparedReply :=
  match carried.clientReply, carried.adminReply with
  | some reply, _ => routes.client[entry.index]?.map fun route => .kv route.1 route.2 reply
  | none, some (key, reply) => routes.admin[key]?.map fun route => .admin route.1 route.2 reply
  | none, none => none

def sealEntry (routes : ReplyRoutes) (base : Working) (entry : Entry) (carried : Carried) :
    Fallible PreparedCommittedEntry :=
  let batch := applyRecord base entry carried
  if batch.panics then .error .panicked
  else match base.kv.prepareApply carried.next.kv batch rfl with
    | .error error => fail (.kv (.store error))
    | .ok (walFrame, kv) =>
      .ok { next := { carried.next with kv }
            walFrame
            reply := routedReply routes entry carried
            finishedAdminSession := carried.adminReply.map Prod.fst
            postEffects := carried.postEffects }

/-- The route of an application entry is taken also when its record fails. -/
def prepareCommittedEntries (policy : ClusterPolicy) (routes : ReplyRoutes) (working : Working) :
    List Entry → ReplyRoutes × Fallible (List PreparedCommittedEntry)
  | [] => (routes, .ok [])
  | entry :: rest =>
    match carryEntry policy working entry with
    | .error halt => (routes, .error halt)
    | .ok carried =>
      let left := if carried.clientReply.isSome then
        { routes with client := routes.client.erase entry.index } else routes
      match sealEntry routes working entry carried with
      | .error halt => (left, .error halt)
      | .ok prepared =>
        match prepareCommittedEntries policy left prepared.next rest with
        | (left, .error halt) => (left, .error halt)
        | (left, .ok others) => (left, .ok (prepared :: others))

section Prepared
variable {policy : ClusterPolicy} {routes left : ReplyRoutes} {working : Working} {entry : Entry} {rest : List Entry}
  {carried : Carried} {prepared : PreparedCommittedEntry} {all : List PreparedCommittedEntry}

theorem sealEntry_ok_iff : sealEntry routes working entry carried = .ok prepared ↔
    (applyRecord working entry carried).panics = false ∧ ∃ walFrame kv,
      working.kv.prepareApply carried.next.kv (applyRecord working entry carried) rfl = .ok (walFrame, kv) ∧
      prepared = ⟨{ carried.next with kv }, walFrame, routedReply routes entry carried,
        carried.adminReply.map Prod.fst, carried.postEffects⟩ := by
  unfold sealEntry
  dsimp only
  cases wide : (applyRecord working entry carried).panics with
  | true => simp
  | false =>
    rw [if_neg Bool.false_ne_true]
    cases prepares : working.kv.prepareApply carried.next.kv (applyRecord working entry carried) rfl with
    | error error => simp [fail]
    | ok pair =>
      constructor
      · exact fun same => ⟨rfl, _, _, rfl, (Except.ok.inj same).symm⟩
      · rintro ⟨-, _, _, ⟨⟩, rfl⟩
        rfl

theorem prepareCommittedEntries_cons
    (done : prepareCommittedEntries policy routes working (entry :: rest) = (left, .ok all)) :
    ∃ carried first others, carryEntry policy working entry = .ok carried ∧
      sealEntry routes working entry carried = .ok first ∧
      prepareCommittedEntries policy (if carried.clientReply.isSome then
        { routes with client := routes.client.erase entry.index } else routes) first.next rest = (left, .ok others) ∧
      all = first :: others := by
  unfold prepareCommittedEntries at done
  split at done
  · cases (Prod.mk.inj done).2
  next carried carries =>
    dsimp only at done
    split at done
    · cases (Prod.mk.inj done).2
    next first sealed =>
      split at done
      · cases (Prod.mk.inj done).2
      next after others prepares =>
        obtain ⟨rfl, same⟩ := Prod.mk.inj done
        exact ⟨carried, first, others, carries, sealed, prepares, (Except.ok.inj same).symm⟩

end Prepared
end CrashCourse.Cluster
