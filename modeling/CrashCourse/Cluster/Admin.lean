import CrashCourse.Cluster.Sessions
import CrashCourse.Raft.Node

/-!
The retry state of operator requests, which are configuration entries that name their
session.
-/

namespace CrashCourse.Cluster
open CrashCourse.Core CrashCourse.KeyValue CrashCourse.Raft

inductive AdminResultTag where
  | applied | transferSuccess | transferTimeout | transferSuperseded | inProgress
  | requestConflict | requestExpired | rejected
  deriving DecidableEq, Repr

namespace AdminResultTag

def code : AdminResultTag → UInt8
  | applied => 1
  | transferSuccess => 2
  | transferTimeout => 3
  | transferSuperseded => 4
  | inProgress => 5
  | requestConflict => 6
  | requestExpired => 7
  | rejected => 8

def ofCode : UInt8 → Option AdminResultTag
  | 1 => some applied
  | 2 => some transferSuccess
  | 3 => some transferTimeout
  | 4 => some transferSuperseded
  | 5 => some inProgress
  | 6 => some requestConflict
  | 7 => some requestExpired
  | 8 => some rejected
  | _ => none

def terminal : AdminResultTag → Bool
  | applied | transferSuccess | transferTimeout | transferSuperseded => true
  | _ => false

end AdminResultTag

structure AdminReply where
  operationTag : UInt8
  result : AdminResultTag
  sourceIndex : Nat
  detail : Bytes
  deriving DecidableEq, Repr

-- `CCAR`, read as a little-endian `u32`.
def adminReplyMagic : Nat := leNat [0x43, 0x43, 0x41, 0x52]

namespace AdminReply

def encode (reply : AdminReply) : Bytes :=
  sealRecord
    (Enc.header adminReplyMagic configFormatVersion
      ++ Enc.u8 reply.operationTag
      ++ Enc.u8 reply.result.code
      ++ Enc.u64 reply.sourceIndex
      ++ Enc.bytes reply.detail)

def decodeBody : Decode AdminReply := do
  Dec.header adminReplyMagic configFormatVersion
  let operationTag ← Dec.u8
  if operationTag < 1 ∨ operationTag > 8 then
    throw (.invalidTag ((← Dec.position) - 1) operationTag)
  let resultTag ← Dec.u8
  let some result := AdminResultTag.ofCode resultTag
    | throw (.invalidTag ((← Dec.position) - 1) resultTag)
  let sourceIndex ← Dec.u64
  if result.terminal ∧ sourceIndex = 0 then throw (.invalidTag ((← Dec.position) - 8) 0)
  let detail ← Dec.bytesField
  Dec.finish
  return { operationTag, result, sourceIndex, detail }

def decode (bytes : Bytes) : Except DecodeError AdminReply := do
  Dec.run decodeBody (← openRecord bytes)

end AdminReply

/-- The same bytes, or the same operation of the same session at another leader time. -/
def sameAdminOperation (left right : Bytes) : Bool :=
  left == right ||
    match ConfigEnvelope.decode left, ConfigEnvelope.decode right with
    | .ok left, .ok right =>
      left.adminSession == right.adminSession && left.operation == right.operation
    | _, _ => false

/-- The request that opened the transfer, rebuilt from the state of the transfer. -/
def canonicalTransferIntent (raft : RaftNode) (intentIndex : Nat) (adminSession : SessionKey × Nat) :
    Option Bytes := do
  let transfer ← raft.transfer
  guard (transfer.intentIndex = intentIndex ∧ transfer.adminSession = some adminSession)
  guard (raft.config.leaderTransferTimeout ≤ transfer.deadline)
  let canonical := ConfigEnvelope.encode
    { adminSession := some adminSession
      leaderTime := transfer.deadline - raft.config.leaderTransferTimeout
      operation := .beginLeaderTransfer transfer.target }
  match raft.entryAt intentIndex with
  | some retained =>
    guard (retained.kind.isConfig ∧ retained.payload = canonical)
    return canonical
  | none => return canonical

def detailText (text : String) : Bytes := text.toUTF8.toList

namespace SessionTable

def previewAdmin (table : SessionTable) (policy : ClusterPolicy) (key : SessionKey) (sequence : Nat)
    (canonicalCommand : Bytes) (operationTag : UInt8) (at_ : Nat) :
    Except KvError (Option AdminReply) :=
  if key.namespaceCode ≠ SessionNamespace.adminRequest.code ∨ sequence = 0 then .error .invalidInput
  else
    let reply := fun result detail => AdminReply.mk operationTag result 0 (detailText detail)
    let fresh : Except KvError (Option AdminReply) :=
      (table.reservationFor policy key sequence canonicalCommand).map fun _ => none
    if table.tombstones[key]?.any fun tombstone =>
        decide (sequence ≤ tombstone.maxSeq) && decide (tombstone.expiresAt > at_) then
      .ok (some (reply .requestExpired "retry-grace"))
    else match table.records[key]? with
      | none => fresh
      | some record =>
        if at_ - record.lastActive > policy.sessionIdleNs then
          .ok (some (reply .requestExpired "idle-expired"))
        else if sequence < record.maxSeq then .ok (some (reply .rejected "stale-sequence"))
        else if sequence = record.maxSeq then
          if sameAdminOperation record.canonicalCommand canonicalCommand then
            match AdminReply.decode record.cachedReply with
            | .ok cached => .ok (some cached)
            | .error _ => .error .invalidInput
          else .ok (some (reply .requestConflict "same-id-different-operation"))
        else fresh

structure AdminApplyContext where
  policy : ClusterPolicy
  key : SessionKey
  sequence : Nat
  canonicalCommand : Bytes
  operationTag : UInt8
  sourceIndex : Nat
  at_ : Nat

/-- `apply_admin` behind its checks. The mutation changes `raft` also when the record
does not fit; the caller then gives up the batch. -/
def runAdmin (table : SessionTable) (context : AdminApplyContext)
    (mutate : RaftNode → RaftNode × Except RaftError (AdminReply × List RaftEffect)) (raft : RaftNode) :
    SessionTable × RaftNode × Except RaftError (AdminReply × List RaftEffect) :=
  let existing := table.existingBytes context.key
  if !table.records.contains context.key ∧ table.records.size ≥ context.policy.maxSessions then
    (table, raft, .error .busy)
  else match mutate raft with
    | (raft, .error error) => (table, raft, .error error)
    | (raft, .ok (reply, effects)) =>
      let cachedReply := reply.encode
      if saturatingAdd (table.encodedBytes - existing)
          (context.canonicalCommand.length + cachedReply.length) > context.policy.maxSessionBytes then
        (table, raft, .error .busy)
      else
        ({ table with
            records := table.records.insert context.key
              ⟨context.sequence, context.canonicalCommand, cachedReply, context.at_⟩ },
          raft, .ok (reply, effects))

def applyAdmin (table : SessionTable) (context : AdminApplyContext)
    (mutate : RaftNode → RaftNode × Except RaftError (AdminReply × List RaftEffect)) (raft : RaftNode) :
    SessionTable × RaftNode × Except RaftError (AdminReply × List RaftEffect) :=
  let fallback := fun result detail =>
    AdminReply.mk context.operationTag result context.sourceIndex (detailText detail)
  let table := table.retainTombstones context.at_
  if table.tombstones.contains context.key then
    (table, raft, .ok (fallback .requestExpired "retry-grace", []))
  else match table.records[context.key]? with
    | none => table.runAdmin context mutate raft
    | some record =>
      if context.at_ - record.lastActive > context.policy.sessionIdleNs then
        (table, raft, .ok (fallback .requestExpired "idle-expired", []))
      else if context.sequence < record.maxSeq then
        (table, raft, .ok (fallback .rejected "stale-sequence", []))
      else if context.sequence = record.maxSeq then
        let touched := table.touch context.key record context.at_
        if sameAdminOperation record.canonicalCommand context.canonicalCommand then
          match AdminReply.decode record.cachedReply with
          | .ok cached => (touched, raft, .ok (cached, []))
          | .error _ => (table, raft, .error .invalidMessage)
        else (touched, raft, .ok (fallback .requestConflict "same-id-different-operation", []))
      else table.runAdmin context mutate raft

end SessionTable
end CrashCourse.Cluster
