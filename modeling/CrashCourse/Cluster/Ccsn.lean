import CrashCourse.Cluster.Snapshot

/-!
The portable checkpoint format: the writer of a whole file, and the one that hands
out the same bytes in chunks.
-/

namespace CrashCourse.Cluster
open CrashCourse.Core CrashCourse.Raft

-- `CCSN` and `CSNE`, read as little-endian `u32`
def ccsnMagic : Nat := leNat [0x43, 0x43, 0x53, 0x4e]
def ccsnEndMagic : Nat := leNat [0x43, 0x53, 0x4e, 0x45]
def ccsnVersion : Nat := 1

def u32Limit : Nat := 2 ^ 32

def ccsnRecord (tag : UInt8) (body : Bytes) : Except SnapshotCodecError Bytes :=
  if body.length < u32Limit then .ok (Checkpoint.recordFrame tag body) else .error .tooLarge

def ccsnHeader (snapshot : Checkpoint) (recordCount : Nat) : Bytes :=
  sealRecord
    (Enc.u32 ccsnMagic ++ Enc.u16 ccsnVersion ++ snapshot.clusterId
      ++ Enc.u64 snapshot.clusterPolicy.hash.toNat
      ++ Enc.u64 snapshot.kv.appliedIndex ++ Enc.u64 snapshot.kv.appliedTerm
      ++ Enc.u64 snapshot.kv.lastLeaderTime ++ Enc.u64 snapshot.kv.storeSequence
      ++ Enc.u64 recordCount)

def ccsnFooter (totalLen : Nat) (recordsCrc fileCrc : BitVec 32) : Bytes :=
  Enc.u64 totalLen ++ Enc.u32 recordsCrc.toNat ++ Enc.u32 fileCrc.toNat ++ Enc.u32 ccsnEndMagic

def ccsnFileCrc (bytes : Bytes) : Except SnapshotCodecError Nat :=
  if bytes.length < Checkpoint.headerLen + Checkpoint.footerLen then .error (.invalid "truncated")
  else
    let footer := bytes.drop (bytes.length - Checkpoint.footerLen)
    if leNat (footer.take 8) ≠ bytes.length ∨ leNat (footer.drop 16) ≠ ccsnEndMagic then .error (.invalid "footer")
    else .ok (leNat ((footer.drop 12).take 4))

def follows {κ : Type} [Ord κ] (prior : Option κ) (key : κ) : Bool := prior.all fun prior => (compare prior key).isLT

def entriesAreValid (snapshot : Checkpoint) : Option Bytes → List LogicalKvEntry → Bool
  | _, [] => true
  | previous, entry :: rest =>
    snapshot.entryIsValid entry && follows previous entry.key && entriesAreValid snapshot (some entry.key) rest

def require (holds : Bool) (error : SnapshotCodecError) : Except SnapshotCodecError Unit :=
  if holds then .ok () else .error error

@[simp] theorem require_ok_iff {holds : Bool} {error : SnapshotCodecError} {value : Unit} :
    require holds error = .ok value ↔ holds = true := by
  unfold require
  split
  next held => simp [held]
  next failed => simp [failed]

def validateBase (snapshot : Checkpoint) : Except SnapshotCodecError Unit := do
  require (!snapshot.clusterId.all (· == 0)) (.invalid "zero cluster id")
  require snapshot.membership.validate.isOk (.invalid "membership")
  require (snapshot.kv.appliedIndex != 0 && snapshot.kv.appliedTerm != 0) (.invalid "snapshot base")

def validateCcsnEncodeSnapshot (snapshot : Checkpoint) : Except SnapshotCodecError Unit := do
  validateBase snapshot
  require (snapshot.leadershipTransfer.all snapshot.transferIsValid) (.invalid "leadership transfer")
  require (entriesAreValid snapshot none snapshot.kv.entries) (.invalid "key order or field")
  snapshot.validateRecords snapshot.sessions.records.toList 0
  require (snapshot.sessions.tombstones.toList.all fun entry => snapshot.tombstoneIsValid entry.1 entry.2)
    (.invalid "session tombstone")

section Whole
variable (snapshot : Checkpoint)

def encodeTransfer : Option LeadershipTransfer → Except SnapshotCodecError (List Bytes)
  | none => .ok []
  | some transfer =>
    if !snapshot.transferIsValid transfer then .error (.invalid "leadership transfer")
    else do return [← ccsnRecord 6 (Checkpoint.transferBody transfer)]

def encodeEntries : Option Bytes → List LogicalKvEntry → Except SnapshotCodecError (List Bytes)
  | _, [] => .ok []
  | previous, entry :: rest =>
    if !snapshot.entryIsValid entry || !follows previous entry.key then .error (.invalid "key order or field")
    else do
      let record ← ccsnRecord 3 (Checkpoint.entryBody entry)
      return record :: (← encodeEntries (some entry.key) rest)

def encodeSessions : Nat → List (SessionKey × SessionRecord) → Except SnapshotCodecError (List Bytes)
  | _, [] => .ok []
  | total, (key, record) :: rest =>
    if !snapshot.recordIsValid key record then .error (.invalid "session record")
    else
      let total := saturatingAdd total record.bytes
      if total > snapshot.clusterPolicy.maxSessionBytes then .error .tooLarge
      else do
        let bytes ← ccsnRecord 4 (Checkpoint.recordBody key record)
        return bytes :: (← encodeSessions total rest)

def encodeTombstones : List (SessionKey × SessionTombstone) → Except SnapshotCodecError (List Bytes)
  | [] => .ok []
  | (key, tombstone) :: rest =>
    if !snapshot.tombstoneIsValid key tombstone then .error (.invalid "session tombstone")
    else do
      let record ← ccsnRecord 5 (Checkpoint.tombstoneBody key tombstone)
      return record :: (← encodeTombstones rest)

def encodeRecords : Except SnapshotCodecError (List Bytes) := do
  validateBase snapshot
  let membership ← snapshot.membership.encode.mapError fun _ => .invalid "membership"
  let first ← ccsnRecord 1 membership
  let second ← ccsnRecord 2 snapshot.clusterPolicy.encode
  let transfer ← encodeTransfer snapshot snapshot.leadershipTransfer
  let entries ← encodeEntries snapshot none snapshot.kv.entries
  let sessions ← encodeSessions snapshot 0 snapshot.sessions.records.toList
  let tombstones ← encodeTombstones snapshot snapshot.sessions.tombstones.toList
  return first :: second :: (transfer ++ entries ++ sessions ++ tombstones)

def encodeCcsn : Except SnapshotCodecError Bytes := do
  let records ← encodeRecords snapshot
  require (decide (records.length ≤ u64Max)) .tooLarge
  let output := ccsnHeader snapshot records.length ++ records.flatten
  let recordsCrc := crc32c (output.drop Checkpoint.headerLen)
  let totalLen := output.length + Checkpoint.footerLen
  require (decide (totalLen ≤ u64Max)) .tooLarge
  let fileCrc := crc32c (output ++ ccsnFooter totalLen recordsCrc 0)
  return output ++ ccsnFooter totalLen recordsCrc fileCrc

end Whole

def ccsnRecordAfterLeading (snapshot : Checkpoint) (place : Nat) : Except SnapshotCodecError Bytes :=
  match snapshot.kv.entries[place]? with
  | some entry => ccsnRecord 3 (Checkpoint.entryBody entry)
  | none =>
    let sessionOrdinal := place - snapshot.kv.entries.length
    match snapshot.sessions.records.toList[sessionOrdinal]? with
    | some (key, record) => ccsnRecord 4 (Checkpoint.recordBody key record)
    | none =>
      let tombstoneOrdinal := sessionOrdinal - snapshot.sessions.records.size
      match snapshot.sessions.tombstones.toList[tombstoneOrdinal]? with
      | some (key, tombstone) => ccsnRecord 5 (Checkpoint.tombstoneBody key tombstone)
      | none => .error (.invalid "tombstone ordinal")

/-- The record with this number: membership, policy, an open transfer, and then the rest. -/
def ccsnRecordByOrdinal (snapshot : Checkpoint) (ordinal : Nat) : Except SnapshotCodecError Bytes :=
  if ordinal = 0 then
    match snapshot.membership.encode with
    | .error _ => .error (.invalid "membership")
    | .ok membership => ccsnRecord 1 membership
  else if ordinal = 1 then ccsnRecord 2 snapshot.clusterPolicy.encode
  else
    match snapshot.leadershipTransfer with
    | some transfer =>
      if ordinal = 2 then ccsnRecord 6 (Checkpoint.transferBody transfer)
      else ccsnRecordAfterLeading snapshot (ordinal - 3)
    | none => ccsnRecordAfterLeading snapshot (ordinal - 2)

structure CcsnStreamEncoder where
  snapshot : Checkpoint
  header : Bytes
  footer : Bytes
  recordCount : Nat
  nextRecord : Nat
  current : Option Bytes
  currentOffset : Nat
  done : Bool
  totalLen : Nat
  fileCrc : BitVec 32

namespace CcsnStreamEncoder

def countRecords (snapshot : Checkpoint) : Except SnapshotCodecError Nat :=
  let count := 2 + snapshot.leadershipTransfer.toList.length + snapshot.kv.entries.length
    + snapshot.sessions.records.size + snapshot.sessions.tombstones.size
  do
    require (decide (count ≤ u64Max)) .tooLarge
    return count

def surveyRecords (snapshot : Checkpoint) : List Nat → BitVec 32 → Nat →
    Except SnapshotCodecError (BitVec 32 × Nat)
  | [], crc, length => .ok (crc, length)
  | ordinal :: rest, crc, length => do
      let record ← ccsnRecordByOrdinal snapshot ordinal
      require (decide (length + record.length ≤ u64Max)) .tooLarge
      surveyRecords snapshot rest (crcUpdate crc record) (length + record.length)

def sumRecords (snapshot : Checkpoint) : List Nat → BitVec 32 → Except SnapshotCodecError (BitVec 32)
  | [], crc => .ok crc
  | ordinal :: rest, crc => do
      let record ← ccsnRecordByOrdinal snapshot ordinal
      sumRecords snapshot rest (crcUpdate crc record)

def new (snapshot : Checkpoint) : Except SnapshotCodecError CcsnStreamEncoder := do
  validateCcsnEncodeSnapshot snapshot
  let recordCount ← countRecords snapshot
  let (recordsCrc, recordsLen) ← surveyRecords snapshot (List.range recordCount) (BitVec.allOnes 32) 0
  let header := ccsnHeader snapshot recordCount
  let totalLen := Checkpoint.headerLen + recordsLen + Checkpoint.footerLen
  require (decide (totalLen ≤ u64Max)) .tooLarge
  let unsealed := ccsnFooter totalLen (~~~ recordsCrc) 0
  let fileCrc ← sumRecords snapshot (List.range recordCount) (crcUpdate (BitVec.allOnes 32) header)
  let fileCrc := ~~~ crcUpdate fileCrc unsealed
  return { snapshot, header, footer := ccsnFooter totalLen (~~~ recordsCrc) fileCrc, recordCount, nextRecord := 0
           current := none, currentOffset := 0, done := false, totalLen, fileCrc }

/-- The piece to write next: the header, the records one by one, the footer, and then nothing. -/
def loadPiece (encoder : CcsnStreamEncoder) : Except SnapshotCodecError CcsnStreamEncoder :=
  match encoder.current with
  | some _ => .ok encoder
  | none =>
    if encoder.nextRecord = 0 then
      .ok { encoder with nextRecord := 1, current := some encoder.header, currentOffset := 0 }
    else if encoder.nextRecord ≤ encoder.recordCount then
      match ccsnRecordByOrdinal encoder.snapshot (encoder.nextRecord - 1) with
      | .error error => .error error
      | .ok record =>
        .ok { encoder with nextRecord := encoder.nextRecord + 1, current := some record, currentOffset := 0 }
    else if encoder.nextRecord = encoder.recordCount + 1 then
      .ok { encoder with
            nextRecord := encoder.nextRecord + 1, current := some encoder.footer, currentOffset := 0 }
    else .ok { encoder with done := true, currentOffset := 0 }

/-- The loop of `next_chunk`; every turn that goes on writes a byte, so the room left
is enough fuel. -/
def fill (maxBytes : Nat) : Nat → CcsnStreamEncoder → Bytes → Except SnapshotCodecError (Bytes × CcsnStreamEncoder)
  | 0, encoder, output => .ok (output, encoder)
  | fuel + 1, encoder, output =>
    if output.length ≥ maxBytes then .ok (output, encoder)
    else do
      let encoder ← encoder.loadPiece
      match encoder.current with
      | none => return (output, encoder)
      | some piece =>
        let wanted := min (maxBytes - output.length) (piece.length - encoder.currentOffset)
        let output := output ++ (piece.drop encoder.currentOffset).take wanted
        let offset := encoder.currentOffset + wanted
        let current := if offset = piece.length then none else some piece
        fill maxBytes fuel { encoder with current, currentOffset := offset } output

def nextChunk (encoder : CcsnStreamEncoder) (maxBytes : Nat) :
    Except SnapshotCodecError (Option Bytes × CcsnStreamEncoder) :=
  if maxBytes = 0 then .error .tooLarge
  else if encoder.done then .ok (none, encoder)
  else do
    let (output, encoder) ← fill maxBytes (maxBytes + 1) encoder []
    return (if output.isEmpty then none else some output, encoder)

def chunks : CcsnStreamEncoder → List Nat → Except SnapshotCodecError (List Bytes × CcsnStreamEncoder)
  | encoder, [] => .ok ([], encoder)
  | encoder, size :: rest => do
      let (chunk, encoder) ← encoder.nextChunk size
      let (others, encoder) ← chunks encoder rest
      return (chunk.toList ++ others, encoder)

end CcsnStreamEncoder

end CrashCourse.Cluster
