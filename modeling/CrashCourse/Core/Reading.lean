import CrashCourse.Core.Codec

/-!
Running a decoder forwards: `Reads` says that it takes exactly one chunk of bytes
and yields a value, whatever stands around it.
-/

namespace CrashCourse.Core

theorem leBytes_length (width value : Nat) : (leBytes width value).length = width := by
  induction width generalizing value with
  | zero => rfl
  | succ width ih => rw [leBytes, List.length_cons, ih]

@[simp] theorem Enc.u8_length (value : UInt8) : (Enc.u8 value).length = 1 := rfl
@[simp] theorem Enc.u16_length (value : Nat) : (Enc.u16 value).length = 2 := leBytes_length 2 value
@[simp] theorem Enc.u32_length (value : Nat) : (Enc.u32 value).length = 4 := leBytes_length 4 value
@[simp] theorem Enc.u64_length (value : Nat) : (Enc.u64 value).length = 8 := leBytes_length 8 value

theorem leNat_leBytes (width value : Nat) : leNat (leBytes width value) = value % 256 ^ width := by
  induction width generalizing value with
  | zero => simp [leBytes, leNat, Nat.mod_one]
  | succ width ih =>
    have byte : (UInt8.ofNat value).toNat = value % 256 := UInt8.toNat_ofNat'
    rw [leBytes, leNat, ih, byte, pow_succ', Nat.mod_mul]

theorem leNat_leBytes_of_lt {width value : Nat} (fits : value < 256 ^ width) :
    leNat (leBytes width value) = value := by
  rw [leNat_leBytes, Nat.mod_eq_of_lt fits]

namespace Dec
variable {α β ε ε' : Type}

def Reads (decoder : StateT Dec (Except ε) α) (chunk : Bytes) (value : α) : Prop :=
  ∀ before after : Bytes, decoder ⟨before ++ chunk ++ after, before.length⟩ =
    .ok (value, ⟨before ++ chunk ++ after, before.length + chunk.length⟩)

namespace Reads

theorem pure (value : α) : Reads (Pure.pure value : StateT Dec (Except ε) α) [] value :=
  fun _ _ => rfl

variable {chunk : Bytes} {first decoder : StateT Dec (Except ε) α} {second : α → StateT Dec (Except ε) β} {value : α}

theorem bind {chunk' : Bytes} {value' : β} (one : Reads first chunk value) (two : Reads (second value) chunk' value') :
    Reads (first >>= second) (chunk ++ chunk') value' := by
  intro before after
  change (first _ >>= fun pair => second pair.1 pair.2) = _
  have here := one before (chunk' ++ after)
  have next := two (before ++ chunk) after
  simp only [List.append_assoc, List.length_append] at here next ⊢
  rw [here]
  exact next.trans (by rw [Nat.add_assoc])

theorem close {value' : β} (one : Reads first chunk value) (two : second value = Pure.pure value') :
    Reads (first >>= second) chunk value' := by
  have both := one.bind (two ▸ Reads.pure value')
  rwa [List.append_nil] at both

theorem map (change : α → β) (reads : Reads decoder chunk value) :
    Reads (do return change (← decoder)) chunk (change value) := reads.close rfl

theorem take (chunk : Bytes) {length : Nat} (same : chunk.length = length) : Reads (Dec.take length) chunk chunk := by
  subst same
  intro before after
  unfold Dec.take
  rw [if_neg (by simp)]
  simp

theorem number {width value : Nat} (fits : value < 256 ^ width) :
    Reads (do return leNat (← Dec.take width)) (leBytes width value) value := by
  have read := (Reads.take (leBytes width value) (leBytes_length width value)).map leNat
  rwa [leNat_leBytes_of_lt fits] at read

theorem u8 (value : UInt8) : Reads Dec.u8 (Enc.u8 value) value := by
  have read := (Reads.take (Enc.u8 value) rfl).map fun bytes => UInt8.ofNat (leNat bytes)
  have same : UInt8.ofNat (leNat (Enc.u8 value)) = value := by simp [Enc.u8, leNat]
  rwa [same] at read

theorem u16 {value : Nat} (fits : value < 2 ^ 16) : Reads Dec.u16 (Enc.u16 value) value :=
  Reads.number fits

theorem u32 {value : Nat} (fits : value < 2 ^ 32) : Reads Dec.u32 (Enc.u32 value) value :=
  Reads.number fits

theorem u64 {value : Nat} (fits : value < 2 ^ 64) : Reads Dec.u64 (Enc.u64 value) value :=
  Reads.number fits

theorem bytesField {value : Bytes} (fits : value.length ≤ maxCodecBytes) :
    Reads Dec.bytesField (Enc.bytes value) value := by
  unfold Dec.bytesField Enc.bytes
  apply (Reads.u32 (by unfold maxCodecBytes at fits; omega)).bind
  rw [if_neg (not_lt.mpr fits)]
  exact Reads.take value rfl

theorem header {magic version : Nat} (fits : magic < 2 ^ 32) (fits' : version < 2 ^ 16) :
    Reads (Dec.header magic version) (Enc.header magic version) () := by
  unfold Dec.header Enc.header
  apply (Reads.u32 fits).bind
  rw [if_neg (not_not.mpr rfl)]
  apply (Reads.u16 fits').close
  rw [if_neg (not_not.mpr rfl)]

theorem mapError (widen : ε → ε') (reads : Reads decoder chunk value) :
    Reads (fun dec => (decoder dec).mapError widen : StateT Dec (Except ε') α) chunk value := by
  intro before after
  change (decoder _).mapError widen = _
  rw [reads before after]
  rfl

theorem whole (reads : Reads decoder chunk value) : decoder (Dec.new chunk) = .ok (value, ⟨chunk, chunk.length⟩) := by
  have read := reads [] []
  simpa [Dec.new] using read

end Reads
end Dec
end CrashCourse.Core
