import CrashCourse.Core.Reading

/-!
The segmented write-ahead log of `cc-wal`. Where the source panics (`expect`) the
functions return `none`.
-/

namespace CrashCourse.WriteAhead
open CrashCourse.Core

def formatVersion : Nat := 1
def walMagic : Bytes := [0x43, 0x43, 0x57, 0x4c]
def maxRecordSize : Nat := 2 * 1024 * 1024
def recordHeaderSize : Nat := 9
def segmentHeaderSize : Nat := 14
def u32Max : Nat := 2 ^ 32 - 1

inductive RecordType where
  | data | pad | segmentSeal
  deriving DecidableEq, Repr

namespace RecordType

def byte : RecordType → UInt8
  | data => 1
  | pad => 2
  | segmentSeal => 3

def fromByte (value : UInt8) : Option RecordType :=
  if value = 1 then some data
  else if value = 2 then some pad
  else if value = 3 then some segmentSeal
  else none

theorem fromByte_byte (kind : RecordType) : fromByte kind.byte = some kind := by
  cases kind <;> rfl

theorem byte_ne_zero (kind : RecordType) : kind.byte ≠ 0 := by
  cases kind <;> decide

end RecordType

structure Lsn where
  segment : Nat
  offset : Nat
  deriving DecidableEq, Repr

structure LsnRange where
  first : Lsn
  stop : Lsn
  deriving DecidableEq, Repr

structure LogRecord where
  lsn : Lsn
  kind : RecordType
  payload : Bytes
  deriving DecidableEq, Repr

structure WalConfig where
  segmentSize : Nat
  maxRecordSize : Nat
  deriving DecidableEq, Repr

structure SegmentImage where
  sequence : Nat
  bytes : Bytes
  deriving DecidableEq, Repr

/-- The reasons are the texts of the source. -/
inductive WalError where
  | invalidConfig
  | recordTooLarge (size max : Nat)
  | invalidRecord (segment offset : Nat) (reason : String)
  | midLogCorruption (segment offset : Nat)
  | invalidSegmentSequence (expected actual : Nat)
  deriving DecidableEq, Repr

structure Segment where
  sequence : Nat
  bytes : Bytes
  writtenLen : Nat
  durableLen : Nat

def segmentHeader (sequence : Nat) : Bytes := walMagic ++ Enc.u16 formatVersion ++ Enc.u64 sequence

theorem segmentHeader_length (sequence : Nat) : (segmentHeader sequence).length = segmentHeaderSize := by
  simp [segmentHeader, walMagic, Enc.u16, Enc.u64, leBytes_length, segmentHeaderSize]

namespace Segment

def new (sequence : Nat) : Segment where
  sequence
  bytes := segmentHeader sequence
  writtenLen := segmentHeaderSize
  durableLen := segmentHeaderSize

def extend (segment : Segment) (bytes : Bytes) : Segment :=
  { segment with
    bytes := segment.bytes ++ bytes
    writtenLen := (segment.bytes ++ bytes).length }

end Segment

def frame (kind : RecordType) (payload : Bytes) : Bytes :=
  Enc.u32 payload.length ++ Enc.u32 (crc32c (kind.byte :: payload)).toNat ++ kind.byte :: payload

def encodeRecord (kind : RecordType) (payload : Bytes) (maxRecordSize : Nat) : Except WalError Bytes :=
  let size := recordHeaderSize + payload.length
  if size > maxRecordSize || decide (payload.length > u32Max) then .error (.recordTooLarge size maxRecordSize)
  else .ok (frame kind payload)

def parseRecord (bytes : Bytes) (sequence offset maxRecordSize : Nat) :
    Option (Except WalError (Option (LogRecord × Nat))) :=
  let rest := bytes.drop offset
  if rest.all (· == 0) then some (.ok none)
  else if bytes.length - offset < recordHeaderSize then
    some (.error (.invalidRecord sequence offset "truncated header"))
  else
    let payloadLen := leNat (rest.take 4)
    let total := recordHeaderSize + payloadLen
    if total > maxRecordSize || decide (total > bytes.length - offset) then
      some (.error (.invalidRecord sequence offset "length outside segment"))
    else
      let expectedCrc := leNat ((rest.drop 4).take 4)
      let body := (rest.take total).drop 8
      match RecordType.fromByte (body.headD 0) with
      | none => some (.error (.invalidRecord sequence offset "unknown record type"))
      | some kind =>
        if (crc32c body).toNat ≠ expectedCrc then
          some (.error (.invalidRecord sequence offset "CRC mismatch"))
        else if offset > u32Max then none
        else some (.ok (some (⟨⟨sequence, offset⟩, kind, body.tail⟩, offset + total)))

def isRecord (parsed : Except WalError (Option (LogRecord × Nat))) : Bool :=
  match parsed with
  | .ok (some _) => true
  | _ => false

def hasValidRecordAfter (bytes : Bytes) (sequence start maxRecordSize : Nat) : Option Bool :=
  (List.range' (start + 1) (bytes.length - (start + 1))).anyM fun offset =>
    (parseRecord bytes sequence offset maxRecordSize).map isRecord

structure Wal where
  config : WalConfig
  segments : List Segment
  records : List LogRecord
  pendingFirst : Option Lsn
  /-- `active` is the last segment. -/
  opened : segments ≠ []

namespace Wal

def new (config : WalConfig) : Except WalError Wal :=
  if config.segmentSize < segmentHeaderSize + recordHeaderSize ∨ config.maxRecordSize < recordHeaderSize ∨
      config.maxRecordSize > WriteAhead.maxRecordSize then .error .invalidConfig
  else .ok
    { config
      segments := [Segment.new 0]
      records := []
      pendingFirst := none
      opened := List.cons_ne_nil _ _ }

def segmentImages (wal : Wal) : List SegmentImage :=
  wal.segments.map fun segment => ⟨segment.sequence, segment.bytes⟩

def durableImages (wal : Wal) : List SegmentImage :=
  wal.segments.map fun segment => ⟨segment.sequence, segment.bytes.take segment.durableLen⟩

def active (wal : Wal) : Segment := wal.segments.getLast wal.opened

def setActive (wal : Wal) (segment : Segment) : Wal :=
  { wal with
    segments := wal.segments.dropLast ++ [segment]
    opened := by simp }

def padActive (wal : Wal) (available : Nat) : Except WalError Wal :=
  if available = 0 then .ok wal
  else if available < recordHeaderSize || decide (available > wal.config.maxRecordSize) then
    .ok (wal.setActive (wal.active.extend (List.replicate available 0)))
  else
    match encodeRecord .pad (List.replicate (available - recordHeaderSize) 0) wal.config.maxRecordSize with
    | .error error => .error error
    | .ok padding =>
      if padding.length ≠ available then .error .invalidConfig
      else .ok (wal.setActive (wal.active.extend padding))

def rollSegment (wal : Wal) : Option Wal :=
  if wal.active.sequence + 1 > u64Max then none
  else some
    { wal with
      segments := wal.segments ++ [Segment.new (wal.active.sequence + 1)]
      opened := by simp }

def place (wal : Wal) (kind : RecordType) (payload encoded : Bytes) : Option (LsnRange × Wal) :=
  let offset := wal.active.bytes.length
  let stop := offset + encoded.length
  if stop > u32Max then none
  else
    let lsn : Lsn := ⟨wal.active.sequence, offset⟩
    some (⟨lsn, ⟨wal.active.sequence, stop⟩⟩,
      { wal.setActive (wal.active.extend encoded) with
        records := wal.records ++ [⟨lsn, kind, payload⟩]
        pendingFirst := wal.pendingFirst.or (some lsn) })

def append (wal : Wal) (kind : RecordType) (payload : Bytes) : Option (Except WalError LsnRange × Wal) :=
  match encodeRecord kind payload wal.config.maxRecordSize with
  | .error error => some (.error error, wal)
  | .ok encoded =>
    let room := wal.config.segmentSize - segmentHeaderSize
    if encoded.length > room then some (.error (.recordTooLarge encoded.length room), wal)
    else
      let available := wal.config.segmentSize - wal.active.bytes.length
      if available < encoded.length then
        match wal.padActive available with
        | .error error => some (.error error, wal)
        | .ok padded => do
            let rolled ← padded.rollSegment
            let (range, next) ← rolled.place kind payload encoded
            return (.ok range, next)
      else do
        let (range, next) ← wal.place kind payload encoded
        return (.ok range, next)

def commit (wal : Wal) : Option LsnRange × Wal :=
  let next : Wal :=
    { wal with
      segments := wal.segments.map fun segment =>
        { segment with writtenLen := segment.bytes.length, durableLen := segment.bytes.length }
      pendingFirst := none
      opened := by simpa using wal.opened }
  ((do return ⟨← wal.pendingFirst, (← wal.records.getLast?).lsn⟩), next)

end Wal

structure RecoveredWal where
  records : List LogRecord
  segments : List SegmentImage
  truncatedAt : Option Lsn
  deriving DecidableEq, Repr

def checkHeader (image : SegmentImage) (expectedSequence : Nat) : Except WalError Unit :=
  if image.sequence ≠ expectedSequence then .error (.invalidSegmentSequence expectedSequence image.sequence)
  else if image.bytes.length < segmentHeaderSize then
    .error (.invalidRecord image.sequence 0 "missing segment header")
  else if image.bytes.take 4 ≠ walMagic ∨ leNat ((image.bytes.drop 4).take 2) ≠ formatVersion then
    .error (.invalidRecord image.sequence 0 "invalid segment header")
  else
    let headerSequence := leNat ((image.bytes.drop 6).take 8)
    if headerSequence ≠ image.sequence then .error (.invalidSegmentSequence image.sequence headerSequence)
    else .ok ()

/-- What one segment adds: its records, the bytes that stay, and where it was cut. -/
structure Scanned where
  records : List LogRecord
  output : Bytes
  truncatedAt : Option Lsn

/-- The loop over the records of a segment; every record takes bytes. -/
def scanSegment (image : SegmentImage) (laterSegmentExists : Bool) (maxRecordSize : Nat) :
    Nat → Nat → List LogRecord → Option (Except WalError Scanned)
  | 0, _, records => some (.ok ⟨records, image.bytes, none⟩)
  | fuel + 1, offset, records =>
    if offset < image.bytes.length then
      match parseRecord image.bytes image.sequence offset maxRecordSize with
      | none => none
      | some (.ok (some (record, next))) =>
        scanSegment image laterSegmentExists maxRecordSize fuel next
          (if record.kind ≠ .pad then records ++ [record] else records)
      | some (.ok none) => some (.ok ⟨records, image.bytes.take offset, none⟩)
      | some (.error _) => do
          let validAfter ← hasValidRecordAfter image.bytes image.sequence offset maxRecordSize
          if laterSegmentExists || validAfter then
            return .error (.midLogCorruption image.sequence offset)
          else if offset > u32Max then none
          else return .ok ⟨records, image.bytes.take offset, some ⟨image.sequence, offset⟩⟩
    else some (.ok ⟨records, image.bytes, none⟩)

def recoverSegments (maxRecordSize : Nat) :
    Nat → List SegmentImage → List LogRecord → List SegmentImage → Option (Except WalError RecoveredWal)
  | _, [], records, normalized => some (.ok ⟨records, normalized, none⟩)
  | index, image :: images, records, normalized =>
    match checkHeader image index with
    | .error error => some (.error error)
    | .ok () =>
      match scanSegment image (!images.isEmpty) maxRecordSize image.bytes.length segmentHeaderSize records with
      | none => none
      | some (.error error) => some (.error error)
      | some (.ok scanned) =>
        let normalized := normalized ++ [⟨image.sequence, scanned.output⟩]
        if scanned.truncatedAt.isSome then
          some (.ok ⟨scanned.records, normalized, scanned.truncatedAt⟩)
        else recoverSegments maxRecordSize (index + 1) images scanned.records normalized

def recover (images : List SegmentImage) (config : WalConfig) : Option (Except WalError RecoveredWal) :=
  if images.isEmpty || decide (config.segmentSize < segmentHeaderSize + recordHeaderSize) then
    some (.error .invalidConfig)
  else recoverSegments config.maxRecordSize 0 images [] []

end CrashCourse.WriteAhead
