import Mathlib

/-!
The byte vocabulary of `cc-core`. `Enc` is the bytes written so far, so each writer is the
bytes it appends; `Dec` keeps the whole input and an offset, which its errors report.
-/

namespace CrashCourse

abbrev Bytes := List UInt8

/-- Ordered containers of the source; both compare extensionally and iterate in key
order. -/
abbrev BTreeSet (α : Type) [Ord α] := Std.ExtTreeSet α compare

abbrev BTreeMap (κ ν : Type) [Ord κ] := Std.ExtTreeMap κ ν compare

/-- The `u64` newtypes that are ordered and counted are natural numbers; those that
only name something keep their width. -/
abbrev NodeId := UInt64
abbrev ClientId := UInt64

def u64Max : Nat := 2 ^ 64 - 1

def saturatingAdd (left right : Nat) : Nat := min (left + right) u64Max

namespace Core

def maxCodecBytes : Nat := 4 * 1024 * 1024

inductive DecodeError where
  | unexpectedEof (offset needed : Nat)
  | lengthTooLarge (offset length max : Nat)
  | invalidMagic (expected actual : Nat)
  | invalidVersion (expected actual : Nat)
  | invalidTag (offset : Nat) (tag : UInt8)
  | trailingBytes (offset : Nat)
  deriving DecidableEq, Repr

/-- Higher bits are cut as `to_le_bytes` of that width would. -/
def leBytes : Nat → Nat → Bytes
  | 0, _ => []
  | width + 1, value => UInt8.ofNat value :: leBytes width (value / 256)

def leNat : Bytes → Nat
  | [] => 0
  | byte :: rest => byte.toNat + 256 * leNat rest

namespace Enc

def u8 (value : UInt8) : Bytes := [value]
def u16 (value : Nat) : Bytes := leBytes 2 value
def u32 (value : Nat) : Bytes := leBytes 4 value
def u64 (value : Nat) : Bytes := leBytes 8 value
def bytes (value : Bytes) : Bytes := u32 value.length ++ value
def header (magic version : Nat) : Bytes := u32 magic ++ u16 version

end Enc

structure Dec where
  bytes : Bytes
  offset : Nat

/-- A decoder threads the `Dec` cursor and stops at the first error. -/
abbrev Decode := StateT Dec (Except DecodeError)

namespace Dec

def new (bytes : Bytes) : Dec := ⟨bytes, 0⟩

def position : Decode Nat := do
  return (← get).offset

def take (length : Nat) : Decode Bytes := fun dec =>
  if dec.offset + length > dec.bytes.length then
    .error (.unexpectedEof dec.offset length)
  else
    .ok ((dec.bytes.drop dec.offset).take length, { dec with offset := dec.offset + length })

def u8 : Decode UInt8 := do
  return UInt8.ofNat (leNat (← take 1))

def u16 : Decode Nat := do
  return leNat (← take 2)

def u32 : Decode Nat := do
  return leNat (← take 4)

def u64 : Decode Nat := do
  return leNat (← take 8)

def bytesField : Decode Bytes := do
  let length ← u32
  if length > maxCodecBytes then
    throw (.lengthTooLarge ((← position) - 4) length maxCodecBytes)
  take length

def header (expectedMagic expectedVersion : Nat) : Decode Unit := do
  let actualMagic ← u32
  if actualMagic ≠ expectedMagic then
    throw (.invalidMagic expectedMagic actualMagic)
  let actualVersion ← u16
  if actualVersion ≠ expectedVersion then
    throw (.invalidVersion expectedVersion actualVersion)

def finish : Decode Unit := fun dec =>
  if dec.offset = dec.bytes.length then .ok ((), dec) else .error (.trailingBytes dec.offset)

def run (decoder : Decode α) (bytes : Bytes) : Except DecodeError α :=
  (decoder (new bytes)).map Prod.fst

/-! Running a decoder backwards: what a success says about the bytes it read. -/

variable {dec last : Dec} {α : Type}

theorem bind_ok {β : Type} {first : Decode α} {second : α → Decode β} {value : β}
    (done : (first >>= second) dec = .ok (value, last)) :
    ∃ middle next, first dec = .ok (middle, next) ∧ second middle next = .ok (value, last) := by
  change (first dec >>= fun pair => second pair.1 pair.2) = _ at done
  cases step : first dec with
  | error error => rw [step] at done; cases done
  | ok pair =>
    rw [step] at done
    exact ⟨pair.1, pair.2, rfl, done⟩

theorem pure_ok {value result : α} (done : (pure value : Decode α) dec = .ok (result, last)) :
    result = value ∧ last = dec := by
  obtain ⟨rfl, rfl⟩ := Prod.mk.inj (Except.ok.inj done)
  exact ⟨rfl, rfl⟩

theorem lift_ok {result : Except DecodeError α} {value : α} (done : (liftM result : Decode α) dec = .ok (value, last)) :
    result = .ok value ∧ last = dec := by
  cases result with
  | error error => cases done
  | ok found =>
    obtain ⟨rfl, rfl⟩ := Prod.mk.inj (Except.ok.inj done)
    exact ⟨rfl, rfl⟩

theorem run_ok {decoder : Decode α} {bytes : Bytes} {value : α} (done : run decoder bytes = .ok value) :
    ∃ last, decoder (new bytes) = .ok (value, last) := by
  unfold run at done
  cases result : decoder (new bytes) with
  | error error => rw [result] at done; cases done
  | ok pair =>
    rw [result] at done
    obtain rfl := Except.ok.inj done
    exact ⟨pair.2, rfl⟩

theorem take_ok {length : Nat} {bytes : Bytes} (done : take length dec = .ok (bytes, last)) :
    bytes = (dec.bytes.drop dec.offset).take length ∧ last = ⟨dec.bytes, dec.offset + length⟩ ∧
      dec.offset + length ≤ dec.bytes.length := by
  unfold take at done
  split at done
  · cases done
  next fits =>
    obtain ⟨rfl, rfl⟩ := Prod.mk.inj (Except.ok.inj done)
    exact ⟨rfl, rfl, not_lt.mp fits⟩

theorem u8_ok {value : UInt8} (done : u8 dec = .ok (value, last)) :
    dec.bytes[dec.offset]? = some value ∧ last = ⟨dec.bytes, dec.offset + 1⟩ := by
  obtain ⟨bytes, next, taken, rest⟩ := bind_ok done
  obtain ⟨rfl, rfl⟩ := pure_ok rest
  obtain ⟨rfl, rfl, fits⟩ := take_ok taken
  refine ⟨?_, rfl⟩
  rw [List.getElem?_eq_getElem fits, List.drop_eq_getElem_cons fits, List.take_succ_cons, List.take_zero]
  simp [leNat]

theorem number_ok {width value : Nat} (done : (do return leNat (← take width) : Decode Nat) dec = .ok (value, last)) :
    last = ⟨dec.bytes, dec.offset + width⟩ := by
  obtain ⟨bytes, next, taken, rest⟩ := bind_ok done
  obtain ⟨_, rfl⟩ := pure_ok rest
  exact (take_ok taken).2.1

theorem header_ok {magic version : Nat} {value : Unit} (done : header magic version dec = .ok (value, last)) :
    last = ⟨dec.bytes, dec.offset + 6⟩ := by
  obtain ⟨actual, next, first, rest⟩ := bind_ok done
  obtain rfl := number_ok first
  dsimp only at rest
  split at rest
  · cases rest
  obtain ⟨actual', next', second, rest⟩ := bind_ok rest
  obtain rfl := number_ok second
  split at rest
  · cases rest
  · exact (pure_ok rest).2

end Dec

/-- One bit of the reflected CRC-32C register; the source's mask `0 - (state & 1)` is
all ones if the low bit is set. -/
def crcBit (state : BitVec 32) : BitVec 32 :=
  (state >>> 1) ^^^ (if state.getLsbD 0 then 0x82f63b78#32 else 0#32)

def crcByte (state : BitVec 32) (byte : UInt8) : BitVec 32 :=
  (crcBit ∘ crcBit ∘ crcBit ∘ crcBit ∘ crcBit ∘ crcBit ∘ crcBit ∘ crcBit)
    (state ^^^ byte.toBitVec.setWidth 32)

def crcUpdate (state : BitVec 32) (bytes : Bytes) : BitVec 32 :=
  bytes.foldl crcByte state

def crc32c (bytes : Bytes) : BitVec 32 := ~~~ crcUpdate (BitVec.allOnes 32) bytes

def crc32cZeroedTail (bytes : Bytes) : BitVec 32 :=
  let zeroFrom := bytes.length - 4
  ~~~ crcUpdate (crcUpdate (BitVec.allOnes 32) (bytes.take zeroFrom))
    (List.replicate (bytes.length - zeroFrom) 0)

/-- Append the zeroed checksum field, then overwrite it with the checksum. -/
def sealRecord (body : Bytes) : Bytes :=
  body ++ Enc.u32 (crc32cZeroedTail (body ++ Enc.u32 0)).toNat

/-- The opening move of every decoder: the length check, then the checksum. -/
def openRecord (bytes : Bytes) : Except DecodeError Bytes :=
  if bytes.length < 4 then
    .error (.unexpectedEof bytes.length (4 - bytes.length))
  else
    let bodyLen := bytes.length - 4
    if (crc32cZeroedTail bytes).toNat ≠ leNat (bytes.drop bodyLen) then
      .error (.invalidTag bodyLen 0)
    else
      .ok (bytes.take bodyLen)

theorem openRecord_ok {bytes body : Bytes} (done : openRecord bytes = .ok body) :
    body = bytes.take (bytes.length - 4) := by
  unfold openRecord at done
  split at done
  · cases done
  · dsimp only at done
    split at done
    · cases done
    · exact (Except.ok.inj done).symm

def fnv1a (bytes : Bytes) : UInt64 :=
  bytes.foldl (fun hash byte => (hash ^^^ byte.toUInt64) * 0x100000001b3) 0xcbf29ce484222325

end Core
end CrashCourse
