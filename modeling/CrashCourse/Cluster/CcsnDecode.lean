import CrashCourse.Cluster.Ccsn
import CrashCourse.Core.Images

/-!
The readers of the checkpoint format: of a whole file, and of pieces, with at most
one record of raw bytes kept.
-/

namespace CrashCourse.Cluster
open CrashCourse.Core CrashCourse.Raft

abbrev CcsnDecode := StateT Dec (Except SnapshotCodecError)

def ccsnField {α : Type} (reason : String) (decoder : Decode α) : CcsnDecode α :=
  fun dec => (decoder dec).mapError fun _ => .invalid reason

def CcsnDecode.run {α : Type} (decoder : CcsnDecode α) (body : Bytes) : Except SnapshotCodecError α :=
  (decoder (Dec.new body)).map Prod.fst

def decodeCcsnDeadline (lastLeaderTime : Nat) (hasDeadline : UInt8) (raw : Nat) : Except SnapshotCodecError (Option Nat) :=
  if hasDeadline = 0 ∧ raw = 0 then .ok none
  else if hasDeadline = 1 ∧ raw > lastLeaderTime then .ok (some raw)
  else .error (.invalid "deadline")

def decodeCcsnKey (storeSequence lastLeaderTime : Nat) : CcsnDecode LogicalKvEntry := do
  let key ← ccsnField "key" Dec.bytesField
  let sequence ← ccsnField "key" Dec.u64
  let value ← ccsnField "key" Dec.bytesField
  let hasDeadline ← ccsnField "key" Dec.u8
  let raw ← ccsnField "key" Dec.u64
  ccsnField "key" Dec.finish
  let deadline ← decodeCcsnDeadline lastLeaderTime hasDeadline raw
  if key.isEmpty ∨ sequence = 0 ∨ sequence > storeSequence then throw (.invalid "key sequence")
  return { key, sequence, value, deadline }

def decodeCcsnOwner (reason identity : String) : CcsnDecode SessionKey := do
  let namespaceCode ← ccsnField reason Dec.u8
  let client ← ccsnField reason Dec.u64
  liftM ((SessionKey.new namespaceCode (UInt64.ofNat client)).mapError fun _ => SnapshotCodecError.invalid identity)

def decodeCcsnSession : CcsnDecode (SessionKey × SessionRecord) := do
  let key ← decodeCcsnOwner "session" "session identity"
  let maxSeq ← ccsnField "session" Dec.u64
  let lastActive ← ccsnField "session" Dec.u64
  let canonicalCommand ← ccsnField "session" Dec.bytesField
  let cachedReply ← ccsnField "session" Dec.bytesField
  ccsnField "session" Dec.finish
  if maxSeq = 0 ∨ !canonicalSessionPayload key.namespaceCode canonicalCommand cachedReply then
    throw (.invalid "session payload")
  return (key, { maxSeq, canonicalCommand, cachedReply, lastActive })

def decodeCcsnTombstone : CcsnDecode (SessionKey × SessionTombstone) := do
  let key ← decodeCcsnOwner "tombstone" "tombstone identity"
  let maxSeq ← ccsnField "tombstone" Dec.u64
  let expiresAt ← ccsnField "tombstone" Dec.u64
  ccsnField "tombstone" Dec.finish
  return (key, { maxSeq, expiresAt })

def ccsnTransferError : SnapshotCodecError := .invalid "leadership transfer"

def decodeCcsnFinishing (tag : UInt8) : Except SnapshotCodecError Bool :=
  if tag = 0 then .ok false else if tag = 1 then .ok true else .error ccsnTransferError

def decodeCcsnAdmin (hasAdmin namespaceCode : UInt8) (client sequence : Nat) :
    Except SnapshotCodecError (Option (SessionKey × Nat)) :=
  if hasAdmin = 0 ∧ namespaceCode = 0 ∧ client = 0 ∧ sequence = 0 then .ok none
  else if hasAdmin = 1 ∧ namespaceCode = SessionNamespace.adminRequest.code ∧ sequence ≠ 0 then
    match SessionKey.new namespaceCode (UInt64.ofNat client) with
    | .error _ => .error ccsnTransferError
    | .ok key => .ok (some (key, sequence))
  else .error ccsnTransferError

def decodeCcsnTransfer (snapshotIndex : Nat) : CcsnDecode LeadershipTransfer := do
  let intentIndex ← ccsnField "leadership transfer" Dec.u64
  let target ← ccsnField "leadership transfer" Dec.u64
  let deadline ← ccsnField "leadership transfer" Dec.u64
  let finishing ← decodeCcsnFinishing (← ccsnField "leadership transfer" Dec.u8)
  let hasAdmin ← ccsnField "leadership transfer" Dec.u8
  let namespaceCode ← ccsnField "leadership transfer" Dec.u8
  let client ← ccsnField "leadership transfer" Dec.u64
  let sequence ← ccsnField "leadership transfer" Dec.u64
  ccsnField "leadership transfer" Dec.finish
  let adminSession ← decodeCcsnAdmin hasAdmin namespaceCode client sequence
  if intentIndex = 0 ∨ intentIndex > snapshotIndex ∨ target = 0 then throw ccsnTransferError
  return { intentIndex, target := UInt64.ofNat target, deadline, finishing, adminSession }

structure CcsnHeader where
  policyHash : Nat
  index : Nat
  term : Nat
  lastLeaderTime : Nat
  storeSequence : Nat
  recordCount : Nat

def slice (bytes : Bytes) (start stop : Nat) : Bytes := (bytes.drop start).take (stop - start)

def CcsnHeader.read (expectedClusterId bytes : Bytes) : Except SnapshotCodecError CcsnHeader := do
  require (leNat (slice bytes 0 4) == ccsnMagic && leNat (slice bytes 4 6) == ccsnVersion) (.invalid "magic or version")
  let header : CcsnHeader :=
    { policyHash := leNat (slice bytes 22 30)
      index := leNat (slice bytes 30 38)
      term := leNat (slice bytes 38 46)
      lastLeaderTime := leNat (slice bytes 46 54)
      storeSequence := leNat (slice bytes 54 62)
      recordCount := leNat (slice bytes 62 70) }
  require (slice bytes 6 22 == expectedClusterId &&
      (crc32cZeroedTail (bytes.take Checkpoint.headerLen)).toNat == leNat (slice bytes 70 74) &&
      header.index != 0 && header.term != 0) (.invalid "header identity or checksum")
  return header

/-- What was read so far, and where: 0 before the membership, 1 before the policy, 2
among the keys, 3 among the sessions, 4 among the tombstones. -/
structure CcsnBuilder where
  seen : Nat
  membership : Option MembershipState
  policy : Option ClusterPolicy
  entries : List LogicalKvEntry
  sessions : SessionTable
  leadershipTransfer : Option LeadershipTransfer
  phase : Nat
  priorKey : Option Bytes
  priorSession : Option SessionKey
  priorTombstone : Option SessionKey
  totalSessionBytes : Nat

namespace CcsnBuilder

def new : CcsnBuilder where
  seen := 0
  membership := none
  policy := none
  entries := []
  sessions := .empty
  leadershipTransfer := none
  phase := 0
  priorKey := none
  priorSession := none
  priorTombstone := none
  totalSessionBytes := 0

section Records
variable (header : CcsnHeader) (builder : CcsnBuilder) (body : Bytes)

def addMembership : Except SnapshotCodecError CcsnBuilder := do
  let membership ← (MembershipState.decode body).mapError fun _ => .invalid "membership"
  return { builder with membership := some membership, phase := 1 }

def addPolicy : Except SnapshotCodecError CcsnBuilder := do
  let policy ← (ClusterPolicy.decode body).mapError fun _ => .invalid "policy"
  require (policy.hash.toNat == header.policyHash && policy.encode == body) (.invalid "policy hash")
  return { builder with policy := some policy, phase := 2 }

def addTransfer : Except SnapshotCodecError CcsnBuilder := do
  let transfer ← (decodeCcsnTransfer header.index).run body
  return { builder with leadershipTransfer := some transfer }

def addKey : Except SnapshotCodecError CcsnBuilder := do
  let entry ← (decodeCcsnKey header.storeSequence header.lastLeaderTime).run body
  require (follows builder.priorKey entry.key) (.invalid "key order")
  return { builder with priorKey := some entry.key, entries := builder.entries ++ [entry] }

def addSession : Except SnapshotCodecError CcsnBuilder := do
  let (key, record) ← decodeCcsnSession.run body
  require (follows builder.priorSession key && !builder.sessions.records.contains key &&
    !builder.sessions.tombstones.contains key && decide (record.lastActive ≤ header.lastLeaderTime))
    (.invalid "session order")
  return { builder with
           phase := 3
           totalSessionBytes := saturatingAdd builder.totalSessionBytes record.bytes
           priorSession := some key
           sessions := { builder.sessions with records := builder.sessions.records.insert key record } }

def addTombstone : Except SnapshotCodecError CcsnBuilder := do
  let (key, tombstone) ← decodeCcsnTombstone.run body
  require (tombstone.maxSeq != 0 && decide (tombstone.expiresAt > header.lastLeaderTime) &&
    follows builder.priorTombstone key && !builder.sessions.records.contains key &&
    !builder.sessions.tombstones.contains key) (.invalid "tombstone order")
  return { builder with
           phase := 4
           priorTombstone := some key
           sessions := { builder.sessions with tombstones := builder.sessions.tombstones.insert key tombstone } }

def record (tag : UInt8) : Except SnapshotCodecError CcsnBuilder :=
  if tag = 1 ∧ builder.phase = 0 ∧ builder.membership.isNone then builder.addMembership body
  else if tag = 2 ∧ builder.phase = 1 ∧ builder.policy.isNone then builder.addPolicy header body
  else if tag = 6 ∧ builder.phase = 2 ∧ builder.leadershipTransfer.isNone then builder.addTransfer header body
  else if tag = 3 ∧ builder.phase = 2 then builder.addKey header body
  else if tag = 4 ∧ (builder.phase = 2 ∨ builder.phase = 3) then builder.addSession header body
  else if tag = 5 ∧ (builder.phase = 2 ∨ builder.phase = 3 ∨ builder.phase = 4) then
    builder.addTombstone header body
  else .error (.invalid "record tag or order")

end Records

def finish (clusterId : Bytes) (header : CcsnHeader) (builder : CcsnBuilder) : Except SnapshotCodecError Checkpoint :=
  match builder.membership, builder.policy with
  | none, _ => .error (.invalid "missing membership")
  | some _, none => .error (.invalid "missing policy")
  | some membership, some policy => do
      require (builder.seen == header.recordCount && membership.validate.isOk) (.invalid "record count or membership")
      require (builder.leadershipTransfer.all fun transfer => membership.voters.contains transfer.target)
        ccsnTransferError
      require (builder.entries.all fun entry =>
        decide (entry.key.length ≤ policy.maxKeyBytes) && decide (entry.value.length ≤ policy.maxValueBytes)) .tooLarge
      require (decide (builder.sessions.records.size ≤ policy.maxSessions) &&
        decide (builder.sessions.tombstones.size ≤ policy.maxSessionTombstones) &&
        decide (builder.totalSessionBytes ≤ policy.maxSessionBytes)) .tooLarge
      return {
        clusterId
        clusterPolicy := policy
        membership
        kv := {
          entries := builder.entries
          storeSequence := header.storeSequence
          appliedIndex := header.index
          appliedTerm := header.term
          lastLeaderTime := header.lastLeaderTime }
        sessions := builder.sessions
        leadershipTransfer := builder.leadershipTransfer }

def framedRecord (header : CcsnHeader) (builder : CcsnBuilder) (bytes : Bytes) (bodyLen : Nat) :
    Except SnapshotCodecError CcsnBuilder := do
  require ((crc32c (slice bytes 8 (9 + bodyLen))).toNat == leNat (slice bytes 4 8)) (.invalid "record checksum")
  let builder ← builder.record header (slice bytes 9 (9 + bodyLen)) (bytes.getD 8 0)
  return { builder with seen := saturatingAdd builder.seen 1 }

end CcsnBuilder

/-- The loop over the records; each has nine bytes or more, so their number is enough
fuel. -/
def decodeRecords (header : CcsnHeader) : Nat → Bytes → CcsnBuilder → Except SnapshotCodecError CcsnBuilder
  | 0, _, builder => .ok builder
  | fuel + 1, bytes, builder =>
    if bytes.isEmpty then .ok builder
    else if builder.seen ≥ header.recordCount ∨ bytes.length < 9 then .error (.invalid "record count or framing")
    else
      let bodyLen := leNat (slice bytes 0 4)
      if bytes.length < 9 + bodyLen then .error (.invalid "record length")
      else do
        let builder ← builder.framedRecord header bytes bodyLen
        decodeRecords header fuel (bytes.drop (9 + bodyLen)) builder

def decodeCcsn (bytes expectedClusterId : Bytes) (maxTotalBytes : Nat) : Except SnapshotCodecError Checkpoint := do
  let length := min bytes.length u64Max
  require (decide (length ≤ maxTotalBytes)) .tooLarge
  require (decide (bytes.length ≥ Checkpoint.headerLen + Checkpoint.footerLen)) (.invalid "truncated")
  let header ← CcsnHeader.read expectedClusterId bytes
  let footer := bytes.length - Checkpoint.footerLen
  require (leNat (slice bytes footer (footer + 8)) == length && leNat (bytes.drop (footer + 16)) == ccsnEndMagic &&
    (crc32c (slice bytes Checkpoint.headerLen footer)).toNat == leNat (slice bytes (footer + 8) (footer + 12)))
    (.invalid "footer")
  let fileCopy := bytes.take (footer + 12) ++ List.replicate 4 0 ++ bytes.drop (footer + 16)
  require ((crc32c fileCopy).toNat == leNat (slice bytes (footer + 12) (footer + 16))) (.invalid "file checksum")
  let records := slice bytes Checkpoint.headerLen footer
  let builder ← decodeRecords header records.length records .new
  builder.finish expectedClusterId header

def maxCcsnRecordBytes : Nat := 16 * 1024 * 1024

structure CcsnStreamDecoder where
  expectedClusterId : Bytes
  maxTotalBytes : Nat
  received : Nat
  pending : Bytes
  header : Option CcsnHeader
  complete : Bool
  recordsCrc : BitVec 32
  fileCrc : BitVec 32
  builder : CcsnBuilder

namespace CcsnStreamDecoder

def new (expectedClusterId : Bytes) (maxTotalBytes : Nat) : CcsnStreamDecoder where
  expectedClusterId
  maxTotalBytes
  received := 0
  pending := []
  header := none
  complete := false
  recordsCrc := BitVec.allOnes 32
  fileCrc := BitVec.allOnes 32
  builder := .new

def consumeHeader (decoder : CcsnStreamDecoder) : Except SnapshotCodecError CcsnStreamDecoder := do
  let bytes := decoder.pending.take Checkpoint.headerLen
  let header ← CcsnHeader.read decoder.expectedClusterId bytes
  return { decoder with
           header := some header
           fileCrc := crcUpdate decoder.fileCrc bytes
           pending := decoder.pending.drop Checkpoint.headerLen }

def consumeRecord (decoder : CcsnStreamDecoder) (header : CcsnHeader) (bodyLen : Nat) :
    Except SnapshotCodecError CcsnStreamDecoder := do
  let record := decoder.pending.take (9 + bodyLen)
  let builder ← decoder.builder.framedRecord header record bodyLen
  return { decoder with
           builder
           recordsCrc := crcUpdate decoder.recordsCrc record
           fileCrc := crcUpdate decoder.fileCrc record
           pending := decoder.pending.drop (9 + bodyLen) }

def consumeFooter (decoder : CcsnStreamDecoder) : Except SnapshotCodecError CcsnStreamDecoder := do
  let footer := decoder.pending.take Checkpoint.footerLen
  require (leNat (slice footer 0 8) == decoder.received && leNat (slice footer 16 20) == ccsnEndMagic &&
    (~~~ decoder.recordsCrc).toNat == leNat (slice footer 8 12)) (.invalid "footer")
  let fileCrc := crcUpdate (crcUpdate (crcUpdate decoder.fileCrc (slice footer 0 12)) (List.replicate 4 0))
    (slice footer 16 20)
  require ((~~~ fileCrc).toNat == leNat (slice footer 12 16)) (.invalid "file checksum")
  let pending := decoder.pending.drop Checkpoint.footerLen
  require pending.isEmpty (.invalid "trailing bytes")
  return { decoder with fileCrc, pending, complete := true }

/-- The loop of `consume`; every turn that goes on takes bytes. -/
def consume : Nat → CcsnStreamDecoder → Except SnapshotCodecError CcsnStreamDecoder
  | 0, decoder => .ok decoder
  | fuel + 1, decoder =>
    match decoder.header with
    | none =>
      if decoder.pending.length < Checkpoint.headerLen then .ok decoder
      else do consume fuel (← decoder.consumeHeader)
    | some header =>
      if decoder.builder.seen < header.recordCount then
        if decoder.pending.length < 9 then .ok decoder
        else
          let bodyLen := leNat (slice decoder.pending 0 4)
          if bodyLen > maxCcsnRecordBytes then .error .tooLarge
          else if decoder.pending.length < 9 + bodyLen then .ok decoder
          else do consume fuel (← decoder.consumeRecord header bodyLen)
      else if decoder.pending.length < Checkpoint.footerLen then .ok decoder
      else decoder.consumeFooter

def push (decoder : CcsnStreamDecoder) (bytes : Bytes) : Except SnapshotCodecError CcsnStreamDecoder :=
  if decoder.complete then .error (.invalid "trailing bytes")
  else if decoder.received + bytes.length > u64Max then .error .tooLarge
  else if decoder.received + bytes.length > decoder.maxTotalBytes then .error .tooLarge
  else
    let pending := decoder.pending ++ bytes
    consume (pending.length + 1) { decoder with received := decoder.received + bytes.length, pending }

def finish (decoder : CcsnStreamDecoder) : Except SnapshotCodecError (Checkpoint × BitVec 32) :=
  if !decoder.complete || !decoder.pending.isEmpty then .error (.invalid "truncated")
  else
    match decoder.header with
    | none => .error (.invalid "missing header")
    | some header => do
        let checkpoint ← decoder.builder.finish decoder.expectedClusterId header
        return (checkpoint, ~~~ decoder.fileCrc)

def decodeChunks (expectedClusterId : Bytes) (maxTotalBytes : Nat) (chunks : List Bytes) :
    Except SnapshotCodecError (Checkpoint × BitVec 32) := do
  let decoder ← chunks.foldlM push (new expectedClusterId maxTotalBytes)
  decoder.finish

end CcsnStreamDecoder

end CrashCourse.Cluster
