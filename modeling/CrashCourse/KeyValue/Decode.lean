import CrashCourse.KeyValue.Command

/-!
The decoders of commands and replies. A nested batch is one error here,
`invalidInput`, whatever stands inside.
-/

namespace CrashCourse.KeyValue
open CrashCourse.Core

abbrev KvDecode := StateT Dec (Except KvError)

def kvField {α : Type} (decoder : Decode α) : KvDecode α :=
  fun dec => (decoder dec).mapError .decode

def badTag {α : Type} (tag : UInt8) : KvDecode α := do
  throw (.decode (.invalidTag ((← get).offset - 1) tag))

def remaining : KvDecode Nat := do
  let dec ← get
  return dec.bytes.length - dec.offset

def KvDecode.run {α : Type} (decoder : KvDecode α) (bytes : Bytes) : Except KvError α := do
  let (value, dec) ← decoder (Dec.new bytes)
  let _ ← kvField Dec.finish dec
  return value

def decodeVersion (expectedMagic : Nat) : KvDecode Nat := do
  let actualMagic ← kvField Dec.u32
  if actualMagic ≠ expectedMagic then throw (.decode (.invalidMagic expectedMagic actualMagic))
  let version ← kvField Dec.u16
  if version ≠ snapshotVersion ∧ version ≠ batchVersion then
    throw (.decode (.invalidVersion batchVersion version))
  return version

def decodeOptionalBytes : KvDecode (Option Bytes) := do
  match ← kvField Dec.u8 with
  | 0 => return none
  | 1 => return some (← kvField Dec.bytesField)
  | tag => badTag tag

def decodeOptionalDuration : KvDecode (Option Nat) := do
  match ← kvField Dec.u8 with
  | 0 => return none
  | 1 => return some (← kvField Dec.u64)
  | tag => badTag tag

def decodeBool : KvDecode Bool := do
  match ← kvField Dec.u8 with
  | 0 => return false
  | 1 => return true
  | tag => badTag tag

def i64OfBits (value : Nat) : Int := if value < 2 ^ 63 then value else (value : Int) - 2 ^ 64

def decodeOpTag (tag : UInt8) : KvDecode KvOp :=
  match tag with
  | 1 => do
      let key ← kvField Dec.bytesField
      let value ← kvField Dec.bytesField
      return .set key value (← decodeOptionalDuration)
  | 2 => return .del (← kvField Dec.bytesField)
  | 17 => do
      let key ← kvField Dec.bytesField
      let value ← kvField Dec.bytesField
      let ttl ← decodeOptionalDuration
      match ← kvField Dec.u8 with
      | 1 => return .conditionalSet key value ttl .nx
      | 2 => return .conditionalSet key value ttl .xx
      | tag => badTag tag
  | 3 => do
      let key ← kvField Dec.bytesField
      let expected ← decodeOptionalBytes
      return .cas key expected (← decodeOptionalBytes)
  | 4 => do
      let key ← kvField Dec.bytesField
      return .incr key (i64OfBits (← kvField Dec.u64))
  | 5 => do
      let key ← kvField Dec.bytesField
      return .expire key (← kvField Dec.u64)
  | 6 => return .persist (← kvField Dec.bytesField)
  | 7 => return .purgeExpired (← kvField Dec.u64)
  | 8 => return .expireSessions (← kvField Dec.u64)
  | 9 => return .get (← kvField Dec.bytesField)
  | 10 => do
      let start ← decodeOptionalBytes
      let stop ← decodeOptionalBytes
      return .scan start stop (← kvField Dec.u32)
  | 11 => return .ping
  | 12 => do
      let key ← kvField Dec.bytesField
      return .append key (← kvField Dec.bytesField)
  | 13 => do
      let key ← kvField Dec.bytesField
      return .getSet key (← kvField Dec.bytesField)
  | 14 => return .getDel (← kvField Dec.bytesField)
  | 15 => do
      let key ← kvField Dec.bytesField
      return .expireAt key (← kvField Dec.u64)
  | 16 => return .ttl (← kvField Dec.bytesField)
  | tag => badTag tag

def decodeChild (bytes : Bytes) : Except KvError KvOp :=
  KvDecode.run (do
    let version ← decodeVersion kvMagic
    if version = batchVersion then throw .invalidInput
    decodeOpTag (← kvField Dec.u8)) bytes

def decodeChildren : Nat → KvDecode (List KvOp)
  | 0 => return []
  | count + 1 => do
      let child ← liftM (decodeChild (← kvField Dec.bytesField))
      return child :: (← decodeChildren count)

def decodeBatch : KvDecode KvCommand := do
  let count ← kvField Dec.u32
  if count = 0 then throw .invalidInput
  let maxByRemaining := (← remaining) / 4
  if count > maxBatchCommands ∨ count > maxByRemaining then
    throw (.decode (.lengthTooLarge ((← get).offset - 4) count (min maxBatchCommands maxByRemaining)))
  return .batch (← decodeChildren count)

def decodeCommand (bytes : Bytes) : Except KvError KvCommand :=
  KvDecode.run (do
    let version ← decodeVersion kvMagic
    let tag ← kvField Dec.u8
    if (version = snapshotVersion ∧ tag = 18) ∨ (version = batchVersion ∧ tag ≠ 18) then badTag tag
    else if tag = 18 then decodeBatch
    else return .op (← decodeOpTag tag)) bytes

def errorFromTag : UInt8 → Except KvError KvError
  | 1 => .ok .staleSequence
  | 2 => .ok .sequenceConflict
  | 3 => .ok .sessionExpired
  | 4 => .ok .notNumeric
  | 5 => .ok .casMismatch
  | 6 => .ok .tooLarge
  | 7 => .ok .invalidInput
  | 9 => .ok .busy
  | tag => .error (.decode (.invalidTag 0 tag))

def openReply (bytes : Bytes) : Except KvError Bytes :=
  if bytes.length < 4 then .error .invalidInput
  else
    let bodyLen := bytes.length - 4
    if (crc32cZeroedTail bytes).toNat ≠ leNat (bytes.drop bodyLen) then .error .invalidInput
    else .ok (bytes.take bodyLen)

def decodeItems : Nat → KvDecode (List (Bytes × Bytes))
  | 0 => return []
  | count + 1 => do
      let key ← kvField Dec.bytesField
      let value ← kvField Dec.bytesField
      return (key, value) :: (← decodeItems count)

def decodeReplyTag (tag : UInt8) : KvDecode OpReply :=
  match tag with
  | 1 => return .ok
  | 2 => return .value (← decodeOptionalBytes)
  | 3 => return .integer (i64OfBits (← kvField Dec.u64))
  | 4 => return .cas (← decodeBool)
  | 5 => return .conditional (← decodeBool)
  | 6 => do
      let count ← kvField Dec.u32
      let maxByRemaining := (← remaining) / 8
      if count > maxScan ∨ count > maxByRemaining then
        throw (.decode (.lengthTooLarge ((← get).offset - 4) count (min maxScan maxByRemaining)))
      return .scan (← decodeItems count)
  | 7 => return .error (← liftM (errorFromTag (← kvField Dec.u8)))
  | tag => badTag tag

def decodeChildReply (bytes : Bytes) : Except KvError OpReply := do
  KvDecode.run (do
    let version ← decodeVersion replyMagic
    if version = batchVersion then throw .invalidInput
    decodeReplyTag (← kvField Dec.u8)) (← openReply bytes)

def decodeChildReplies : Nat → KvDecode (List OpReply)
  | 0 => return []
  | count + 1 => do
      let child ← liftM (decodeChildReply (← kvField Dec.bytesField))
      return child :: (← decodeChildReplies count)

def decodeBatchReply : KvDecode KvReply := do
  match ← kvField Dec.u8 with
  | 1 =>
    let count ← kvField Dec.u32
    let maxByRemaining := (← remaining) / 4
    if count = 0 ∨ count > maxBatchCommands ∨ count > maxByRemaining then
      throw (.decode (.lengthTooLarge ((← get).offset - 4) count (min maxBatchCommands maxByRemaining)))
    return .batch (← decodeChildReplies count)
  | 0 =>
    let hasIndex ← decodeBool
    let index ← kvField Dec.u32
    if (!hasIndex ∧ index ≠ 0) ∨ (hasIndex ∧ index ≥ maxBatchCommands) then throw .invalidInput
    match ← liftM (decodeChildReply (← kvField Dec.bytesField)) with
    | .error error => return .batchError (if hasIndex then some index else none) error
    | _ => throw .invalidInput
  | _ => throw .invalidInput

def decodeReply (bytes : Bytes) : Except KvError KvReply := do
  KvDecode.run (do
    let version ← decodeVersion replyMagic
    let tag ← kvField Dec.u8
    if version = batchVersion then
      if tag ≠ 7 then badTag tag else decodeBatchReply
    else return .op (← decodeReplyTag tag)) (← openReply bytes)

end CrashCourse.KeyValue
