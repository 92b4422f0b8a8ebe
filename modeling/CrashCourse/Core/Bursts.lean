import CrashCourse.Core.Envelopes

/-!
What CRC-32C detects. One bit of the register is linear in exclusive or and loses nothing,
so the difference that a burst leaves stays.
-/

namespace CrashCourse.Core

/-- Two strings of one length that differ, and only within four consecutive positions. -/
structure Burst (left right : Bytes) : Prop where
  differ : left ≠ right
  length : left.length = right.length
  within : ∃ start, ∀ position, left[position]? ≠ right[position]? → start ≤ position ∧ position < start + 4

theorem crcBit_xor (left right : BitVec 32) : crcBit (left ^^^ right) = crcBit left ^^^ crcBit right := by
  unfold crcBit
  rw [BitVec.getLsbD_xor, BitVec.ushiftRight_xor_distrib]
  have mask : (if (left.getLsbD 0 ^^ right.getLsbD 0) then 0x82f63b78#32 else 0#32) =
      (if left.getLsbD 0 then 0x82f63b78#32 else 0#32) ^^^ (if right.getLsbD 0 then 0x82f63b78#32 else 0#32) := by
    cases left.getLsbD 0 <;> cases right.getLsbD 0 <;> rfl
  rw [mask]
  ac_rfl

theorem crcBit_eq_zero {state : BitVec 32} (zero : crcBit state = 0#32) : state = 0#32 := by
  have low : state.getLsbD 0 = false := by
    have top := congrArg (·.getLsbD 31) zero
    cases low : state.getLsbD 0 <;> simp [crcBit, low] at top ⊢
  have rest : state >>> 1 = 0#32 := by rwa [crcBit, low, if_neg Bool.false_ne_true, BitVec.xor_zero] at zero
  refine BitVec.eq_of_getLsbD_eq fun bit inside => ?_
  cases bit with
  | zero => simpa using low
  | succ bit =>
    have above := congrArg (·.getLsbD bit) rest
    simpa [Nat.add_comm] using above

theorem crcBit_injective : Function.Injective crcBit := by
  intro left right same
  have zero : crcBit (left ^^^ right) = 0#32 := by rw [crcBit_xor, same, BitVec.xor_self]
  exact BitVec.xor_eq_zero_iff.mp (crcBit_eq_zero zero)

theorem crcBit_iterate_shiftLeft (state : BitVec 32) (count : Nat) (fits : state.toNat * 2 ^ count < 2 ^ 32) :
    crcBit^[count] (state <<< count) = state := by
  induction count with
  | zero => simp
  | succ count ih =>
    rw [pow_succ, ← Nat.mul_assoc] at fits
    have small : state.toNat * 2 ^ count < 2 ^ 32 := by omega
    have step : crcBit (state <<< (count + 1)) = state <<< count := by
      have low : (state <<< (count + 1)).getLsbD 0 = false := by simp
      unfold crcBit
      rw [low, if_neg Bool.false_ne_true, BitVec.xor_zero]
      refine BitVec.eq_of_toNat_eq ?_
      simp only [BitVec.toNat_ushiftRight, BitVec.toNat_shiftLeft, Nat.shiftLeft_eq, Nat.shiftRight_eq_div_pow]
      rw [pow_succ, ← Nat.mul_assoc, Nat.mod_eq_of_lt fits, Nat.mod_eq_of_lt small]
      omega
    rw [Function.iterate_succ_apply, step, ih small]

def crcShift (state : BitVec 32) : BitVec 32 := crcBit^[8] state

theorem crcByte_eq (state : BitVec 32) (byte : UInt8) :
    crcByte state byte = crcShift (state ^^^ byte.toBitVec.setWidth 32) := rfl

theorem crcShift_injective : Function.Injective crcShift := crcBit_injective.iterate 8

theorem crcShift_xor (left right : BitVec 32) : crcShift (left ^^^ right) = crcShift left ^^^ crcShift right := by
  simp only [crcShift, Function.iterate_succ, Function.iterate_zero, Function.comp_apply, id, crcBit_xor]

theorem crcUpdate_injective (bytes : Bytes) : Function.Injective (crcUpdate · bytes) := by
  induction bytes with
  | nil => exact fun _ _ same => same
  | cons byte rest ih =>
    intro left right same
    have shifted : crcByte left byte = crcByte right byte := ih same
    rw [crcByte_eq, crcByte_eq] at shifted
    exact (BitVec.xor_left_inj _).mp (crcShift_injective shifted)

/-- States that meet again after up to four bytes differed in no more bits than the
bytes have, and from one state only the same bytes meet. -/
theorem crcUpdate_word {bytes bytes' : Bytes} (length : bytes.length = bytes'.length) (short : bytes.length ≤ 4)
    {state state' : BitVec 32} (meet : crcUpdate state bytes = crcUpdate state' bytes') :
    (state ^^^ state').toNat < 2 ^ (8 * bytes.length) ∧ (state = state' → bytes = bytes') := by
  induction bytes generalizing bytes' state state' with
  | nil =>
    obtain rfl := List.length_eq_zero_iff.mp length.symm
    obtain rfl : state = state' := meet
    simp
  | cons byte rest ih =>
    obtain ⟨byte', rest', rfl⟩ := List.exists_cons_of_length_eq_add_one length.symm
    rw [List.length_cons] at short length ⊢
    obtain ⟨small, agree⟩ := ih (Nat.succ_inj.mp length) (by omega) meet
    let wide (byte : UInt8) : BitVec 32 := byte.toBitVec.setWidth 32
    have narrow (byte : UInt8) : (wide byte).toNat = byte.toNat := by simp [wide]
    set ahead := crcByte state byte ^^^ crcByte state' byte' with left
    have room : 2 ^ (8 * rest.length) ≤ 2 ^ 24 := Nat.pow_le_pow_right (by decide) (by omega)
    -- the difference after the byte is itself a shifted state, so it is known before the shift
    have moved : (state ^^^ state') ^^^ (wide byte ^^^ wide byte') = ahead <<< 8 := by
      refine crcShift_injective (Eq.trans ?_ (crcBit_iterate_shiftLeft ahead 8 (by omega)).symm)
      rw [left, crcByte_eq, crcByte_eq, ← crcShift_xor]
      exact congrArg crcShift (by ac_rfl)
    have shifted : (ahead <<< 8).toNat = ahead.toNat * 2 ^ 8 := by
      rw [BitVec.toNat_shiftLeft, Nat.shiftLeft_eq, Nat.mod_eq_of_lt (by omega)]
    have low : (wide byte ^^^ wide byte').toNat < 2 ^ 8 := by
      rw [BitVec.toNat_xor, narrow, narrow]
      exact Nat.xor_lt_two_pow byte.toNat_lt byte'.toNat_lt
    constructor
    · have apart : state ^^^ state' = ahead <<< 8 ^^^ (wide byte ^^^ wide byte') := by
        rw [← moved, BitVec.xor_assoc, BitVec.xor_self, BitVec.xor_zero]
      rw [apart, BitVec.toNat_xor]
      have more : 2 ^ (8 * (rest.length + 1)) = 2 ^ (8 * rest.length) * 2 ^ 8 := by rw [← pow_add]; rfl
      refine Nat.xor_lt_two_pow ?_ (low.trans_le ?_)
      · omega
      · have := Nat.two_pow_pos (8 * rest.length)
        omega
    · rintro rfl
      rw [BitVec.xor_self, BitVec.zero_xor] at moved
      rw [moved, shifted] at low
      have still : ahead = 0#32 := BitVec.eq_of_toNat_eq (show ahead.toNat = 0 by omega)
      rw [still, BitVec.zero_shiftLeft] at moved
      have same : byte = byte' := by
        have equal := congrArg BitVec.toNat (BitVec.xor_eq_zero_iff.mp moved)
        rw [narrow, narrow] at equal
        exact UInt8.toNat_inj.mp equal
      rw [same, agree (BitVec.xor_eq_zero_iff.mp still)]

theorem Burst.crcUpdate_ne {left right : Bytes} (burst : Burst left right) (state : BitVec 32) :
    crcUpdate state left ≠ crcUpdate state right := by
  obtain ⟨start, within⟩ := burst.within
  have length := burst.length
  have outside (position : Nat) (out : ¬(start ≤ position ∧ position < start + 4)) :
      left[position]? = right[position]? := by_contra fun differs => out (within position differs)
  have front : left.take start = right.take start := by
    refine List.ext_getElem? fun position => ?_
    rw [List.getElem?_take, List.getElem?_take]
    split
    · exact outside position (by omega)
    · rfl
  have back : left.drop (start + 4) = right.drop (start + 4) := by
    refine List.ext_getElem? fun position => ?_
    rw [List.getElem?_drop, List.getElem?_drop]
    exact outside _ (by omega)
  have parts (bytes : Bytes) :
      bytes.take start ++ ((bytes.drop start).take 4 ++ bytes.drop (start + 4)) = bytes := by
    rw [← List.drop_drop, List.take_append_drop, List.take_append_drop]
  intro equal
  rw [← parts left, ← parts right, front, back] at equal
  simp only [crcUpdate, List.foldl_append] at equal
  have inner := (crcUpdate_word (by simp [length]) (by simp) (crcUpdate_injective _ equal)).2 rfl
  exact burst.differ (by rw [← parts left, ← parts right, front, back, inner])

/-- A burst of corrupted bytes changes the checksum, also that of a record whose
checksum field is intact. -/
theorem crc32c_detects_bursts : (∀ left right, Burst left right → crc32c left ≠ crc32c right) ∧
    ∀ body corrupted field, field.length = 4 → Burst body corrupted →
      (crc32cZeroedTail (body ++ field)).toNat = leNat field →
      (crc32cZeroedTail (corrupted ++ field)).toNat ≠ leNat field := by
  refine ⟨fun left right burst equal => burst.crcUpdate_ne _ (BitVec.not_inj.mp equal), ?_⟩
  intro body corrupted field four burst passed passes
  have equal := BitVec.eq_of_toNat_eq (passed.trans passes.symm)
  simp only [crc32cZeroedTail, List.length_append, four, Nat.add_sub_cancel, List.take_left] at equal
  rw [← burst.length] at equal
  exact burst.crcUpdate_ne _ (crcUpdate_injective _ (BitVec.not_inj.mp equal))

theorem crc32c_detects_bursts_sealed : crc32c [1, 2] ≠ crc32c [1, 3] ∧
    (crc32cZeroedTail ([1, 3] ++ [203, 200, 56, 200])).toNat ≠ leNat [203, 200, 56, 200] := by
  have burst : Burst [1, 2] [1, 3] := by
    refine ⟨by decide, rfl, 0, fun position differs => ⟨position.zero_le, ?_⟩⟩
    by_contra late
    rw [List.getElem?_eq_none (by simp; omega), List.getElem?_eq_none (by simp; omega)] at differs
    exact differs rfl
  exact ⟨crc32c_detects_bursts.1 _ _ burst, crc32c_detects_bursts.2 [1, 2] _ _ rfl burst (by decide +kernel)⟩

end CrashCourse.Core
