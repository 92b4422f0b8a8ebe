import CrashCourse.Cluster.Admin

/-!
The canonical checkpoint: what it holds, the checks before it is written and the bytes of its records.
-/

namespace CrashCourse.Cluster
open CrashCourse.Core CrashCourse.KeyValue CrashCourse.Raft

structure LogicalKvEntry where
  key : Bytes
  sequence : Nat
  value : Bytes
  deadline : Option Nat
  deriving DecidableEq

structure LogicalKvSnapshot where
  entries : List LogicalKvEntry
  storeSequence : Nat
  appliedIndex : Nat
  appliedTerm : Nat
  lastLeaderTime : Nat
  deriving DecidableEq

structure Checkpoint where
  clusterId : Bytes
  clusterPolicy : ClusterPolicy
  membership : MembershipState
  kv : LogicalKvSnapshot
  sessions : SessionTable
  leadershipTransfer : Option LeadershipTransfer

inductive SnapshotCodecError where
  | invalid (reason : String)
  | tooLarge
  deriving DecidableEq, Repr

def logicalSnapshot (kv : Kv) (at_ : Nat) : LogicalKvSnapshot where
  entries := kv.store.live.toList.filterMap fun entry =>
    let deadline := kv.ttl[entry.1]?
    if deadline.all fun value => decide (value > at_) then
      some ⟨entry.1, entry.2.1, entry.2.2, deadline⟩
    else none
  storeSequence := kv.store.nextSequence
  appliedIndex := kv.appliedIndex
  appliedTerm := kv.appliedTerm
  lastLeaderTime := max kv.lastLeaderTime at_

def snapshotLeadershipTransfer (raft : RaftNode) : Option LeadershipTransfer :=
  match raft.transfer with
  | none => none
  | some transfer =>
    if transfer.intentIndex > raft.appliedIndex then none
    else some { transfer with finishing := false }

/-- The payloads of a session record are the canonical bytes of what they decode to. -/
def canonicalSessionPayload (namespaceCode : UInt8) (command reply : Bytes) : Bool :=
  if namespaceCode = SessionNamespace.userRequest.code then
    (match decodeCommand command with
      | .ok parsed => encodeCommand parsed == command
      | .error _ => false) &&
    (match decodeReply reply with
      | .ok parsed => encodeReply parsed == reply
      | .error _ => false)
  else if namespaceCode = SessionNamespace.adminRequest.code then
    (match ConfigEnvelope.decode command with
      | .ok parsed => parsed.encode == command
      | .error _ => false) &&
    (match AdminReply.decode reply with
      | .ok parsed => parsed.encode == reply
      | .error _ => false)
  else false

namespace Checkpoint

def transferIsValid (checkpoint : Checkpoint) (transfer : LeadershipTransfer) : Bool :=
  transfer.intentIndex != 0 && decide (transfer.intentIndex ≤ checkpoint.kv.appliedIndex) &&
    checkpoint.membership.voters.contains transfer.target &&
    transfer.adminSession.all fun session =>
      session.1.namespaceCode == SessionNamespace.adminRequest.code && session.2 != 0

def entryIsValid (checkpoint : Checkpoint) (entry : LogicalKvEntry) : Bool :=
  !entry.key.isEmpty && entry.sequence != 0 && decide (entry.sequence ≤ checkpoint.kv.storeSequence) &&
    decide (entry.key.length ≤ checkpoint.clusterPolicy.maxKeyBytes) &&
    decide (entry.value.length ≤ checkpoint.clusterPolicy.maxValueBytes) &&
    entry.deadline.all fun deadline => decide (deadline > checkpoint.kv.lastLeaderTime)

def recordIsValid (checkpoint : Checkpoint) (key : SessionKey) (record : SessionRecord) : Bool :=
  decide (key.namespaceCode ≤ SessionNamespace.adminRequest.code) && record.maxSeq != 0 &&
    decide (record.lastActive ≤ checkpoint.kv.lastLeaderTime) &&
    canonicalSessionPayload key.namespaceCode record.canonicalCommand record.cachedReply

def tombstoneIsValid (checkpoint : Checkpoint) (key : SessionKey) (tombstone : SessionTombstone) : Bool :=
  decide (key.namespaceCode ≤ SessionNamespace.adminRequest.code) && tombstone.maxSeq != 0 &&
    decide (tombstone.expiresAt > checkpoint.kv.lastLeaderTime) &&
    !checkpoint.sessions.records.contains key

def validateRecords (checkpoint : Checkpoint) : List (SessionKey × SessionRecord) → Nat →
    Except SnapshotCodecError Unit
  | [], _ => .ok ()
  | (key, record) :: rest, total =>
    if !checkpoint.recordIsValid key record then .error (.invalid "session record")
    else
      let total := saturatingAdd total record.bytes
      if total > checkpoint.clusterPolicy.maxSessionBytes then .error .tooLarge
      else checkpoint.validateRecords rest total

def recordFrame (tag : UInt8) (body : Bytes) : Bytes :=
  Enc.u32 body.length ++ Enc.u32 (crc32c (tag :: body)).toNat ++ Enc.u8 tag ++ body

def transferBody (transfer : LeadershipTransfer) : Bytes :=
  Enc.u64 transfer.intentIndex ++ Enc.u64 transfer.target.toNat ++ Enc.u64 transfer.deadline
    ++ Enc.u8 (if transfer.finishing then 1 else 0)
    ++ ConfigEnvelope.encodeSession transfer.adminSession

def entryBody (entry : LogicalKvEntry) : Bytes :=
  Enc.bytes entry.key ++ Enc.u64 entry.sequence ++ Enc.bytes entry.value
    ++ (match entry.deadline with
      | some deadline => Enc.u8 1 ++ Enc.u64 deadline
      | none => Enc.u8 0 ++ Enc.u64 0)

def recordBody (key : SessionKey) (record : SessionRecord) : Bytes :=
  Enc.u8 key.namespaceCode ++ Enc.u64 key.client.toNat ++ Enc.u64 record.maxSeq
    ++ Enc.u64 record.lastActive ++ Enc.bytes record.canonicalCommand ++ Enc.bytes record.cachedReply

def tombstoneBody (key : SessionKey) (tombstone : SessionTombstone) : Bytes :=
  Enc.u8 key.namespaceCode ++ Enc.u64 key.client.toNat ++ Enc.u64 tombstone.maxSeq
    ++ Enc.u64 tombstone.expiresAt

def headerLen : Nat := 74
def footerLen : Nat := 20

end Checkpoint
end CrashCourse.Cluster
