import CrashCourse.WriteAhead.Segments

/-!
What the record parser makes of the log's bytes: a whole frame is its record, zeros
are the end, and a cut frame is an error.
-/

namespace CrashCourse.WriteAhead
open CrashCourse.Core

theorem frame_length (kind : RecordType) (payload : Bytes) :
    (frame kind payload).length = recordHeaderSize + payload.length := by
  simp only [frame, Enc.u32, List.length_append, leBytes_length, List.length_cons, recordHeaderSize]
  omega

structure Fits (maxRecordSize : Nat) (payload : Bytes) : Prop where
  record : recordHeaderSize + payload.length ≤ maxRecordSize
  length : payload.length ≤ u32Max

theorem encodeRecord_ok_iff {kind : RecordType} {payload encoded : Bytes} {maxRecordSize : Nat} :
    encodeRecord kind payload maxRecordSize = .ok encoded ↔
      Fits maxRecordSize payload ∧ encoded = frame kind payload := by
  unfold encodeRecord
  dsimp only
  split
  next large =>
    simp only [Bool.or_eq_true, decide_eq_true_eq] at large
    constructor
    · intro done
      cases done
    · rintro ⟨fits, rfl⟩
      have := fits.record
      have := fits.length
      omega
  next small =>
    simp only [Bool.or_eq_true, decide_eq_true_eq, not_or, not_lt] at small
    constructor
    · intro done
      exact ⟨⟨small.1, small.2⟩, (Except.ok.inj done).symm⟩
    · rintro ⟨-, rfl⟩
      rfl

section Frame
variable {kind : RecordType} {payload : Bytes}

theorem frame_take_four (payload : Bytes) (kind : RecordType) (count : Nat) (long : 4 ≤ count) :
    ((frame kind payload).take count).take 4 = Enc.u32 payload.length := by
  rw [List.take_take, min_eq_left long, frame, List.append_assoc]
  exact List.take_left' (leBytes_length 4 _)

theorem leNat_length (short : payload.length ≤ u32Max) : leNat (Enc.u32 payload.length) = payload.length := by
  refine leNat_leBytes_of_lt ?_
  unfold u32Max at short
  omega

theorem frame_eq (kind : RecordType) (payload : Bytes) : frame kind payload =
      Enc.u32 payload.length ++ (Enc.u32 (crc32c (kind.byte :: payload)).toNat ++ (kind.byte :: payload)) := by
  rw [frame, List.append_assoc]

theorem frame_not_zero (after : Bytes) : (frame kind payload ++ after).all (· == 0) = false := by
  simp [frame, RecordType.byte_ne_zero]

theorem parseRecord_frame {maxRecordSize : Nat} (fits : Fits maxRecordSize payload) (before after : Bytes)
    (sequence : Nat) (low : before.length ≤ u32Max) :
    parseRecord (before ++ (frame kind payload ++ after)) sequence before.length maxRecordSize =
      some (.ok (some (⟨⟨sequence, before.length⟩, kind, payload⟩,
        before.length + (frame kind payload).length))) := by
  have long := frame_length kind payload
  have four : ((frame kind payload ++ after).take 4) = Enc.u32 payload.length := by
    rw [frame_eq, List.append_assoc]
    exact List.take_left' (leBytes_length 4 _)
  have crc : ((frame kind payload ++ after).drop 4).take 4 = Enc.u32 (crc32c (kind.byte :: payload)).toNat := by
    have first : (Enc.u32 payload.length).length = 4 := leBytes_length 4 _
    rw [frame_eq, List.append_assoc, List.drop_left' first, List.append_assoc]
    exact List.take_left' (leBytes_length 4 _)
  have body : ((frame kind payload ++ after).take (recordHeaderSize + payload.length)).drop 8 =
      kind.byte :: payload := by
    rw [List.take_left' long, frame]
    exact List.drop_left' (by simp [Enc.u32, leBytes_length])
  have sum : leNat (Enc.u32 (crc32c (kind.byte :: payload)).toNat) = (crc32c (kind.byte :: payload)).toNat :=
    leNat_leBytes_of_lt (by have := (crc32c (kind.byte :: payload)).isLt; omega)
  have size :
      recordHeaderSize + payload.length ≤ (before ++ (frame kind payload ++ after)).length - before.length := by
    simp only [List.length_append]
    omega
  have record := fits.record
  unfold parseRecord
  simp only [List.drop_left, frame_not_zero, four, leNat_length fits.length, crc, body, sum, List.headD_cons,
    RecordType.fromByte_byte, List.tail_cons, long]
  rw [if_neg Bool.false_ne_true, if_neg (by omega), if_neg (by simp; omega), if_neg (by simp), if_neg (by omega)]

theorem parseRecord_zeros {bytes : Bytes} {offset : Nat} (zeros : (bytes.drop offset).all (· == 0) = true)
    (sequence maxRecordSize : Nat) : parseRecord bytes sequence offset maxRecordSize = some (.ok none) := by
  unfold parseRecord
  dsimp only
  rw [if_pos zeros]

theorem parseRecord_torn {count : Nat} (short : payload.length ≤ u32Max)
    (torn : count < (frame kind payload).length) (before : Bytes) (sequence maxRecordSize : Nat)
    (some' : ((frame kind payload).take count).all (· == 0) = false) :
    ∃ error, parseRecord (before ++ (frame kind payload).take count) sequence before.length maxRecordSize =
      some (.error error) := by
  have long := frame_length kind payload
  have left : (before ++ (frame kind payload).take count).length - before.length = count := by
    simp only [List.length_append, List.length_take]
    omega
  unfold parseRecord
  simp only [List.drop_left, some', left]
  rw [if_neg Bool.false_ne_true]
  split
  · exact ⟨_, rfl⟩
  next header =>
    rw [frame_take_four payload kind count (by unfold recordHeaderSize at header; omega), leNat_length short,
      if_pos (by simp; omega)]
    exact ⟨_, rfl⟩

end Frame

theorem anyM_eq_some_false {α : Type} {test : α → Option Bool} {items : List α}
    (none' : ∀ item ∈ items, test item = some false) : items.anyM test = some false := by
  induction items with
  | nil => rfl
  | cons item items ih =>
    rw [List.anyM, none' item (List.mem_cons_self ..)]
    exact ih fun other held => none' other (List.mem_cons_of_mem _ held)

theorem hasValidRecordAfter_pad (before : Bytes) (sequence maxRecordSize zeros count : Nat) :
    hasValidRecordAfter (before ++ (frame .pad (List.replicate zeros 0)).take count) sequence before.length
      maxRecordSize = some false := by
  refine anyM_eq_some_false ?_
  intro offset held
  obtain ⟨step, -, rfl⟩ := List.mem_range'.mp held
  rw [one_mul]
  generalize left : ((frame .pad (List.replicate zeros 0)).take count).drop (step + 1) = rest
  have dropped : (before ++ (frame .pad (List.replicate zeros 0)).take count).drop (before.length + 1 + step) =
      rest := by
    rw [add_assoc, List.drop_append, List.drop_of_length_le (by omega), add_tsub_cancel_left, List.nil_append,
      add_comm 1 step, left]
  have eighth : rest.getD 8 0 = 0 := by
    rw [← left, List.getD_eq_getElem?_getD, List.getElem?_drop, List.getElem?_take]
    split
    · rw [frame, List.getElem?_append_right (by simp [Enc.u32, leBytes_length])]
      have at' : step + 1 + 8 - (Enc.u32 (List.replicate zeros (0 : UInt8)).length ++
          Enc.u32 (crc32c (RecordType.pad.byte :: List.replicate zeros 0)).toNat).length = step + 1 := by
        simp only [Enc.u32, List.length_append, leBytes_length]
        omega
      rw [at', List.getElem?_cons_succ, List.getElem?_replicate]
      split <;> rfl
    · rfl
  unfold parseRecord
  simp only [dropped]
  split
  · rfl
  split
  · rfl
  split
  · rfl
  next total =>
    have head : (((rest.take (recordHeaderSize + leNat (rest.take 4))).drop 8).headD 0) = 0 := by
      rw [List.headD_eq_head?_getD, List.head?_drop, List.getElem?_take,
        if_pos (by unfold recordHeaderSize; omega), ← List.getD_eq_getElem?_getD, eighth]
    rw [head]
    rfl

end CrashCourse.WriteAhead
