import CrashCourse.Cluster.Bodies
import CrashCourse.Cluster.Chunks
import CrashCourse.Core.Incremental

/-!
The reader in pieces accepts what the reader of whole files accepts, however the file is
cut: up to the footer it is an incremental reader.
-/

namespace CrashCourse.Cluster
open CrashCourse.Core CrashCourse.Raft

namespace CcsnStreamDecoder

structure Progress where
  header : Option CcsnHeader
  recordsCrc : BitVec 32
  fileCrc : BitVec 32
  builder : CcsnBuilder

theorem slice_append {bytes : Bytes} {start stop : Nat} (inside : stop ≤ bytes.length) (others : Bytes) :
    slice (bytes ++ others) start stop = slice bytes start stop := by
  unfold slice
  rcases Nat.lt_or_ge bytes.length start with beyond | within
  · rw [Nat.sub_eq_zero_of_le (by omega), List.take_zero, List.take_zero]
  · rw [List.drop_append_of_le_length within, List.take_append_of_le_length (by rw [List.length_drop]; omega)]

namespace Progress

def start : Progress := ⟨none, BitVec.allOnes 32, BitVec.allOnes 32, .new⟩

def withHeader (progress : Progress) (bytes : Bytes) (header : CcsnHeader) : Progress :=
  { progress with header := some header, fileCrc := crcUpdate progress.fileCrc bytes }

def withRecord (progress : Progress) (record : Bytes) (builder : CcsnBuilder) : Progress :=
  { progress with
    builder
    recordsCrc := crcUpdate progress.recordsCrc record
    fileCrc := crcUpdate progress.fileCrc record }

def need (progress : Progress) (bytes : Bytes) : Except SnapshotCodecError (Option Nat) :=
  match progress.header with
  | none => .ok (some Checkpoint.headerLen)
  | some header =>
    if ¬ progress.builder.seen < header.recordCount ∨ bytes.length < 9 then .ok none
    else if leNat (slice bytes 0 4) > maxCcsnRecordBytes then .error .tooLarge
    else .ok (some (9 + leNat (slice bytes 0 4)))

def take (id : Bytes) (progress : Progress) (bytes : Bytes) : Except SnapshotCodecError Progress :=
  match progress.header with
  | none => (CcsnHeader.read id bytes).map (progress.withHeader bytes)
  | some header =>
    (progress.builder.framedRecord header bytes (bytes.length - 9)).map (progress.withRecord bytes)

section Need
variable {progress : Progress} {header : CcsnHeader} {bytes : Bytes}

theorem need_eq (held : progress.header = some header) (bytes : Bytes) : progress.need bytes =
    if ¬ progress.builder.seen < header.recordCount ∨ bytes.length < 9 then .ok none
    else if leNat (slice bytes 0 4) > maxCcsnRecordBytes then .error .tooLarge
    else .ok (some (9 + leNat (slice bytes 0 4))) := by
  rw [need, held]

theorem take_record (held : progress.header = some header) {bodyLen : Nat} (inside : 9 + bodyLen ≤ bytes.length)
    (id : Bytes) : progress.take id (bytes.take (9 + bodyLen)) =
      (progress.builder.framedRecord header (bytes.take (9 + bodyLen)) bodyLen).map
        (progress.withRecord (bytes.take (9 + bodyLen))) := by
  have size : (bytes.take (9 + bodyLen)).length - 9 = bodyLen := by
    rw [List.length_take]
    omega
  rw [take, held]
  dsimp only
  rw [size]

theorem need_positive {count : Nat} (needs : progress.need bytes = .ok (some count)) : 0 < count := by
  unfold need at needs
  grind [Checkpoint.headerLen]

theorem need_stable (others : Bytes) (goes : progress.need bytes ≠ .ok none) :
    progress.need (bytes ++ others) = progress.need bytes := by
  grind [need, slice_append]

end Need

def reader (id : Bytes) : Reader Progress UInt8 SnapshotCodecError where
  need := need
  take := take id
  positive := need_positive
  stable := need_stable

def recordsEnded (progress : Progress) : Bool :=
  progress.header.any fun header => !decide (progress.builder.seen < header.recordCount)

def decoder (id : Bytes) (maxBytes received : Nat) (progress : Progress) (pending : Bytes) : CcsnStreamDecoder where
  expectedClusterId := id
  maxTotalBytes := maxBytes
  received
  pending
  header := progress.header
  complete := false
  recordsCrc := progress.recordsCrc
  fileCrc := progress.fileCrc
  builder := progress.builder

def settle (id : Bytes) (maxBytes received : Nat) (pair : Progress × Bytes) :
    Except SnapshotCodecError CcsnStreamDecoder :=
  if pair.1.recordsEnded && decide (Checkpoint.footerLen ≤ pair.2.length) then
    (pair.1.decoder id maxBytes received pair.2).consumeFooter
  else .ok (pair.1.decoder id maxBytes received pair.2)

section Consume
variable {id : Bytes} {maxBytes received : Nat} {progress : Progress}

theorem recordsEnded_eq {header : CcsnHeader} (held : progress.header = some header) :
    progress.recordsEnded = !decide (progress.builder.seen < header.recordCount) := by
  rw [recordsEnded, held]
  rfl

theorem decoder_header (bytes : Bytes) : (progress.decoder id maxBytes received bytes).header = progress.header := rfl
theorem decoder_pending (bytes : Bytes) : (progress.decoder id maxBytes received bytes).pending = bytes := rfl
theorem decoder_builder (bytes : Bytes) : (progress.decoder id maxBytes received bytes).builder = progress.builder := rfl

theorem consumeHeader_eq (bytes : Bytes) : (progress.decoder id maxBytes received bytes).consumeHeader =
    (CcsnHeader.read id (bytes.take Checkpoint.headerLen)).map fun header =>
      (progress.withHeader (bytes.take Checkpoint.headerLen) header).decoder id maxBytes received
        (bytes.drop Checkpoint.headerLen) := rfl

theorem consumeRecord_eq (header : CcsnHeader) (bytes : Bytes) (bodyLen : Nat) :
    (progress.decoder id maxBytes received bytes).consumeRecord header bodyLen =
      (progress.builder.framedRecord header (bytes.take (9 + bodyLen)) bodyLen).map fun builder =>
        (progress.withRecord (bytes.take (9 + bodyLen)) builder).decoder id maxBytes received
          (bytes.drop (9 + bodyLen)) := rfl

theorem consume_eq {fuel : Nat} {bytes : Bytes} (enough : bytes.length < fuel) :
    consume fuel (progress.decoder id maxBytes received bytes) =
      (reader id).read progress bytes >>= settle id maxBytes received := by
  induction fuel generalizing progress bytes with
  | zero => omega
  | succ fuel ih =>
    have next {count : Nat} (positive : 0 < count) (within : ¬ bytes.length < count) (progress : Progress) :
        consume fuel (progress.decoder id maxBytes received (bytes.drop count)) =
          (reader id).read progress (bytes.drop count) >>= settle id maxBytes received :=
      ih (by rw [List.length_drop]; omega)
    have turn : (reader id).need progress bytes = progress.need bytes ∧
        (reader id).take progress = progress.take id := ⟨rfl, rfl⟩
    rw [consume, Reader.read_eq, turn.1, turn.2, consumeHeader_eq]
    simp only [consumeRecord_eq, decoder_header, decoder_pending, decoder_builder, need, take]
    cases held : progress.header with
    | none =>
      by_cases short : bytes.length < Checkpoint.headerLen
      · simp [short, settle, recordsEnded, held]
      · simp [short, next (by decide) short]
    | some header =>
      have ended := recordsEnded_eq held
      by_cases due : progress.builder.seen < header.recordCount
      · by_cases short : bytes.length < 9
        · simp [due, short, settle, ended]
        by_cases large : leNat (slice bytes 0 4) > maxCcsnRecordBytes
        · simp [due, short, large]
        by_cases part : bytes.length < 9 + leNat (slice bytes 0 4)
        · simp [due, short, large, part, settle, ended]
        have size : min (9 + leNat (slice bytes 0 4)) bytes.length - 9 = leNat (slice bytes 0 4) := by omega
        simp [due, short, large, part, size, next (by omega) part]
      · by_cases short : bytes.length < Checkpoint.footerLen
        · simp [due, short, settle, ended]
        · simp [due, short, settle, ended, not_lt.mp short]

end Consume
end Progress

def reached (id : Bytes) (maxBytes : Nat) (bytes : Bytes) : Except SnapshotCodecError CcsnStreamDecoder :=
  if bytes.length > u64Max then .error .tooLarge
  else if bytes.length > maxBytes then .error .tooLarge
  else (Progress.reader id).read .start bytes >>= Progress.settle id maxBytes bytes.length

structure Closes (decoder : CcsnStreamDecoder) : Prop where
  ends : decoder.pending.length = Checkpoint.footerLen
  length : leNat (slice decoder.pending 0 8) = decoder.received
  magic : leNat (slice decoder.pending 16 20) = ccsnEndMagic
  recordsSum : (~~~ decoder.recordsCrc).toNat = leNat (slice decoder.pending 8 12)
  fileSum : (~~~ crcUpdate decoder.fileCrc (slice decoder.pending 0 12 ++ (List.replicate 4 0 ++
    slice decoder.pending 16 20))).toNat = leNat (slice decoder.pending 12 16)

def closed (decoder : CcsnStreamDecoder) : CcsnStreamDecoder :=
  { decoder with
    fileCrc := crcUpdate decoder.fileCrc
      (slice decoder.pending 0 12 ++ (List.replicate 4 0 ++ slice decoder.pending 16 20))
    pending := []
    complete := true }

section Push
variable {id : Bytes} {maxBytes : Nat} {bytes chunk rest : Bytes} {decoder : CcsnStreamDecoder} {progress : Progress}

theorem consumeFooter_ok_iff {decoder' : CcsnStreamDecoder} (long : Checkpoint.footerLen ≤ decoder.pending.length) :
    decoder.consumeFooter = .ok decoder' ↔ Closes decoder ∧ decoder' = decoder.closed := by
  simp only [consumeFooter, bind_ok_iff, require_ok_iff, Bool.and_eq_true, beq_iff_eq, List.isEmpty_iff,
    List.drop_eq_nil_iff]
  constructor
  · rintro ⟨_, ⟨⟨length, magic⟩, recordsSum⟩, _, fileSum, _, nothing, same⟩
    have ends : decoder.pending.length = Checkpoint.footerLen := le_antisymm nothing long
    rw [List.take_of_length_le nothing] at length magic recordsSum fileSum same
    rw [← crcUpdate_append, ← crcUpdate_append] at fileSum same
    rw [List.drop_eq_nil_of_le nothing] at same
    exact ⟨⟨ends, length, magic, recordsSum, fileSum⟩, (Except.ok.inj same).symm⟩
  · rintro ⟨closes, rfl⟩
    have nothing : decoder.pending.length ≤ Checkpoint.footerLen := closes.ends.le
    rw [List.take_of_length_le nothing, ← crcUpdate_append, ← crcUpdate_append, List.drop_eq_nil_of_le nothing]
    exact ⟨(), ⟨⟨closes.length, closes.magic⟩, closes.recordsSum⟩, (), closes.fileSum, (), nothing, rfl⟩

theorem settle_ok_iff {received : Nat} {decoder' : CcsnStreamDecoder} :
    Progress.settle id maxBytes received (progress, rest) = .ok decoder' ↔
      if progress.recordsEnded && decide (Checkpoint.footerLen ≤ rest.length) then
        Closes (progress.decoder id maxBytes received rest) ∧
          decoder' = (progress.decoder id maxBytes received rest).closed
      else decoder' = progress.decoder id maxBytes received rest := by
  unfold Progress.settle
  split
  next due =>
    exact consumeFooter_ok_iff (of_decide_eq_true (Bool.and_eq_true_iff.mp due).2)
  next waits =>
    exact ⟨fun same => (Except.ok.inj same).symm, fun same => by rw [same]⟩

theorem need_of_recordsEnded (ended : progress.recordsEnded = true) (bytes : Bytes) :
    progress.need bytes = .ok none := by
  obtain ⟨header, held, ended⟩ := (Option.any_eq_true ..).mp ended
  rw [Progress.need_eq held]
  exact if_pos (.inl (of_decide_eq_false ((Bool.not_eq_true' _).mp ended)))

theorem reached_eq (short : bytes.length ≤ u64Max) (within : bytes.length ≤ maxBytes) : reached id maxBytes bytes =
    (Progress.reader id).read .start bytes >>= Progress.settle id maxBytes bytes.length := by
  unfold reached
  rw [if_neg (by omega), if_neg (by omega)]

theorem limits_of_reached (done : reached id maxBytes bytes = .ok decoder) :
    bytes.length ≤ u64Max ∧ bytes.length ≤ maxBytes := by
  simp only [reached, refuse_ok_iff] at done
  omega

theorem push_waiting (read : (Progress.reader id).read .start bytes = .ok (progress, rest)) :
    (progress.decoder id maxBytes bytes.length rest).push chunk = reached id maxBytes (bytes ++ chunk) := by
  have whole : (Progress.reader id).read .start (bytes ++ chunk) = (Progress.reader id).read progress (rest ++ chunk) := by
    rw [Reader.read_append, read]
    rfl
  rw [reached, whole, List.length_append]
  -- `complete` is not set, and the limits are those of the whole
  change (if bytes.length + chunk.length > u64Max then _ else if bytes.length + chunk.length > maxBytes then _ else
    consume ((rest ++ chunk).length + 1)
      (progress.decoder id maxBytes (bytes.length + chunk.length) (rest ++ chunk))) = _
  rw [Progress.consume_eq (Nat.lt_succ_self _)]

theorem push_reached (some_byte : chunk ≠ []) (decoder' : CcsnStreamDecoder) :
    (∃ decoder, reached id maxBytes bytes = .ok decoder ∧ decoder.push chunk = .ok decoder') ↔
      reached id maxBytes (bytes ++ chunk) = .ok decoder' := by
  constructor
  · rintro ⟨decoder, before, pushed⟩
    obtain ⟨short, within⟩ := limits_of_reached before
    rw [reached_eq short within] at before
    obtain ⟨⟨progress, rest⟩, read, settled⟩ := bind_ok_iff.mp before
    rw [settle_ok_iff] at settled
    split at settled
    · -- a complete decoder takes nothing
      rw [settled.2, push] at pushed
      cases pushed
    · rwa [settled, push_waiting read] at pushed
  · intro after
    obtain ⟨short, within⟩ := limits_of_reached after
    rw [reached_eq short within, Reader.read_append] at after
    rw [List.length_append] at short within
    obtain ⟨⟨last, left⟩, both, settled⟩ := bind_ok_iff.mp after
    obtain ⟨⟨progress, rest⟩, read, more⟩ := bind_ok_iff.mp both
    rw [reached_eq (by omega) (by omega), read]
    cases due : progress.recordsEnded && decide (Checkpoint.footerLen ≤ rest.length) with
    | false =>
      refine ⟨progress.decoder id maxBytes bytes.length rest, settle_ok_iff.mpr ?_, ?_⟩
      · rw [due]
        rfl
      · rw [push_waiting read, reached_eq (by rwa [List.length_append]) (by rwa [List.length_append]),
          Reader.read_append, both]
        exact settled
    | true =>
      -- the footer is there, and the chunk follows it
      obtain ⟨ended, long⟩ := Bool.and_eq_true_iff.mp due
      have long : Checkpoint.footerLen ≤ rest.length := of_decide_eq_true long
      rw [Reader.read_waits _ (need_of_recordsEnded ended _)] at more
      obtain ⟨rfl, rfl⟩ := Prod.mk.inj (Except.ok.inj more)
      have positive := List.length_pos_iff.mpr some_byte
      have longer : Checkpoint.footerLen ≤ (rest ++ chunk).length := by
        rw [List.length_append]
        omega
      rw [settle_ok_iff, if_pos (Bool.and_eq_true_iff.mpr ⟨ended, decide_eq_true longer⟩)] at settled
      have ends : (rest ++ chunk).length = Checkpoint.footerLen := settled.1.ends
      rw [List.length_append] at ends
      omega

theorem foldlM_push_iff {chunks : List Bytes} (some_bytes : ∀ chunk ∈ chunks, chunk ≠ [])
    (decoder' : CcsnStreamDecoder) :
    chunks.foldlM push (new id maxBytes) = .ok decoder' ↔ reached id maxBytes chunks.flatten = .ok decoder' := by
  induction chunks using List.reverseRecOn generalizing decoder' with
  | nil =>
    rw [List.flatten_nil, reached_eq (Nat.zero_le _) (Nat.zero_le _)]
    rfl
  | append_singleton chunks chunk ih =>
    have earlier := fun decoder => ih (fun chunk' member => some_bytes chunk' (by simp [member])) decoder
    have this_chunk : chunk ≠ [] := some_bytes chunk (by simp)
    rw [List.foldlM_append, List.flatten_append, List.flatten_singleton, ← push_reached this_chunk, bind_ok_iff]
    simp only [earlier, List.foldlM_cons, List.foldlM_nil, bind_pure]

end Push

section Records
variable {header : CcsnHeader} {builder next : CcsnBuilder} {bytes : Bytes} {bodyLen : Nat}

theorem framedRecord_append (inside : 9 + bodyLen ≤ bytes.length) (others : Bytes) :
    builder.framedRecord header (bytes ++ others) bodyLen = builder.framedRecord header bytes bodyLen := by
  have tag : (bytes ++ others).getD 8 0 = bytes.getD 8 0 := by
    rw [List.getD_eq_getElem?_getD, List.getD_eq_getElem?_getD, List.getElem?_append_left (by omega)]
  unfold CcsnBuilder.framedRecord
  rw [slice_append inside, slice_append inside, slice_append (by omega), tag]

theorem framedRecord_take (inside : 9 + bodyLen ≤ bytes.length) :
    builder.framedRecord header (bytes.take (9 + bodyLen)) bodyLen = builder.framedRecord header bytes bodyLen := by
  have whole : 9 + bodyLen ≤ (bytes.take (9 + bodyLen)).length := by
    rw [List.length_take]
    omega
  rw [← framedRecord_append whole (bytes.drop (9 + bodyLen)), List.take_append_drop]

theorem framedRecord_small (inside : 9 + bodyLen ≤ bytes.length)
    (taken : builder.framedRecord header bytes bodyLen = .ok next) : bodyLen ≤ maxCcsnRecordBytes := by
  simp only [CcsnBuilder.framedRecord, bind_ok_iff] at taken
  obtain ⟨_, -, added, recorded, -⟩ := taken
  have small := record_small recorded
  rw [slice, List.length_take, List.length_drop] at small
  omega

variable {progress last : Progress} {id : Bytes}

theorem withRecord_withRecord (progress : Progress) (record others : Bytes) (builder next : CcsnBuilder) :
    (progress.withRecord record builder).withRecord others next = progress.withRecord (record ++ others) next := by
  unfold Progress.withRecord
  rw [crcUpdate_append, crcUpdate_append]

theorem read_ended (held : progress.header = some header) (ended : ¬ progress.builder.seen < header.recordCount)
    (tail : Bytes) : (Progress.reader id).read progress tail = .ok (progress, tail) :=
  Reader.read_waits _ ((Progress.need_eq held tail).trans (if_pos (.inl ended)))

theorem read_of_decodeRecords {fuel : Nat} {tail : Bytes} (held : progress.header = some header)
    (read : decodeRecords header fuel bytes progress.builder = .ok next) (enough : bytes.length ≤ fuel)
    (ended : ¬ next.seen < header.recordCount) :
    (Progress.reader id).read progress (bytes ++ tail) = .ok (progress.withRecord bytes next, tail) := by
  induction fuel generalizing progress bytes with
  | zero =>
    obtain rfl : bytes = [] := List.length_eq_zero_iff.mp (by omega)
    obtain rfl : progress.builder = next := Except.ok.inj read
    exact read_ended held ended tail
  | succ fuel ih =>
    by_cases empty : bytes = []
    · obtain rfl := empty
      obtain rfl : progress.builder = next := Except.ok.inj read
      exact read_ended held ended tail
    simp only [decodeRecords, List.isEmpty_iff, empty, if_false, refuse_ok_iff, bind_ok_iff] at read
    obtain ⟨due, inside, added, framed, read⟩ := read
    have inside : 9 + leNat (slice bytes 0 4) ≤ bytes.length := not_lt.mp inside
    have small := framedRecord_small inside framed
    have same : slice (bytes ++ tail) 0 4 = slice bytes 0 4 := slice_append (by omega) tail
    have needs : (Progress.reader id).need progress (bytes ++ tail) = .ok (some (9 + leNat (slice bytes 0 4))) := by
      refine (Progress.need_eq held _).trans ?_
      rw [same, if_neg (by rw [List.length_append]; omega), if_neg (by omega)]
    have taken : (Progress.reader id).take progress (bytes.take (9 + leNat (slice bytes 0 4))) =
        .ok (progress.withRecord (bytes.take (9 + leNat (slice bytes 0 4))) added) := by
      refine (Progress.take_record held inside id).trans ?_
      rw [framedRecord_take inside, framed]
      rfl
    rw [Reader.read_takes _ needs (by rw [List.length_append]; omega), List.take_append_of_le_length inside, taken,
      List.drop_append_of_le_length inside]
    change (Progress.reader id).read _ _ = _
    rw [ih (by exact held) (by exact read) (by rw [List.length_drop]; omega), withRecord_withRecord,
      List.take_append_drop]

theorem decodeRecords_cons {record : Bytes} (long : record.length = 9 + bodyLen)
    (size : leNat (slice record 0 4) = bodyLen)
    (due : builder.seen < header.recordCount) (framed : builder.framedRecord header record bodyLen = .ok next)
    (fuel : Nat) (others : Bytes) :
    decodeRecords header (fuel + 1) (record ++ others) builder = decodeRecords header fuel others next := by
  have same : leNat (slice (record ++ others) 0 4) = bodyLen := by rw [slice_append (by omega), size]
  have longer : (record ++ others).length = 9 + bodyLen + others.length := by rw [List.length_append, long]
  have some_byte : ¬ (record ++ others).isEmpty = true := by
    rw [List.isEmpty_iff_length_eq_zero]
    omega
  rw [decodeRecords, if_neg some_byte, if_neg (by omega)]
  dsimp only
  rw [same, if_neg (by omega), framedRecord_append (by omega), framed, ← long, List.drop_left]
  rfl

theorem decodeRecords_of_read {rest : Bytes} (held : progress.header = some header)
    (read : (Progress.reader id).read progress bytes = .ok (last, rest)) :
    ∃ middle, bytes = middle ++ rest ∧ last = progress.withRecord middle last.builder ∧
      ∀ fuel ≥ middle.length, decodeRecords header fuel middle progress.builder = .ok last.builder := by
  induction size : bytes.length using Nat.strong_induction_on generalizing progress bytes with
  | _ size ih =>
    have stays : (progress, bytes) = (last, rest) → ∃ middle, bytes = middle ++ rest ∧
        last = progress.withRecord middle last.builder ∧
        ∀ fuel ≥ middle.length, decodeRecords header fuel middle progress.builder = .ok last.builder := by
      rintro ⟨⟩
      refine ⟨[], rfl, rfl, fun fuel _ => ?_⟩
      cases fuel <;> rfl
    have needs : (Progress.reader id).need progress bytes = _ := Progress.need_eq held bytes
    rw [Reader.read_eq, needs] at read
    by_cases waits : ¬ progress.builder.seen < header.recordCount ∨ bytes.length < 9
    · simp only [waits, if_true] at read
      exact stays (Except.ok.inj read)
    by_cases large : leNat (slice bytes 0 4) > maxCcsnRecordBytes
    · simp only [waits, large, if_true, if_false] at read
      cases read
    by_cases part : bytes.length < 9 + leNat (slice bytes 0 4)
    · simp only [waits, large, part, if_true, if_false] at read
      exact stays (Except.ok.inj read)
    have inside := not_lt.mp part
    have taken : (Progress.reader id).take progress _ = _ := Progress.take_record held inside id
    simp only [waits, large, part, if_false, taken] at read
    obtain ⟨_, mapped, read⟩ := bind_ok_iff.mp read
    obtain ⟨added, framed, rfl⟩ := map_ok_iff.mp mapped
    obtain ⟨middle, cut, same, records⟩ :=
      ih (bytes.drop (9 + leNat (slice bytes 0 4))).length (by rw [List.length_drop]; omega) (by exact held) read rfl
    have exact_length : (bytes.take (9 + leNat (slice bytes 0 4))).length = 9 + leNat (slice bytes 0 4) := by
      rw [List.length_take]
      omega
    have start : slice (bytes.take (9 + leNat (slice bytes 0 4))) 0 4 = slice bytes 0 4 := by
      rw [← slice_append (by omega) (bytes.drop (9 + leNat (slice bytes 0 4))), List.take_append_drop]
    refine ⟨bytes.take (9 + leNat (slice bytes 0 4)) ++ middle, ?_, ?_, fun fuel enough => ?_⟩
    · rw [List.append_assoc, ← cut, List.take_append_drop]
    · rw [← withRecord_withRecord]
      exact same
    · rw [ge_iff_le, List.length_append] at enough
      obtain ⟨fuel, rfl⟩ : ∃ less, fuel = less + 1 := ⟨fuel - 1, by omega⟩
      rw [decodeRecords_cons exact_length (by rw [start]) (by omega) framed]
      exact records fuel (by omega)

end Records
end CcsnStreamDecoder

/-- A file of a checkpoint: a header, records and a footer that fit together. -/
structure CcsnFile (id : Bytes) (maxBytes : Nat) (bytes : Bytes) (checkpoint : Checkpoint)
    (start middle tail : Bytes) (header : CcsnHeader) (builder : CcsnBuilder) : Prop where
  whole : bytes = start ++ middle ++ tail
  starts : start.length = Checkpoint.headerLen
  ends : tail.length = Checkpoint.footerLen
  bounded : bytes.length ≤ maxBytes
  opens : CcsnHeader.read id start = .ok header
  length : leNat (slice tail 0 8) = bytes.length
  magic : leNat (slice tail 16 20) = ccsnEndMagic
  recordsSum : (crc32c middle).toNat = leNat (slice tail 8 12)
  fileSum : (crc32c (start ++ middle ++ slice tail 0 12 ++ List.replicate 4 0 ++ slice tail 16 20)).toNat =
    leNat (slice tail 12 16)
  records : decodeRecords header middle.length middle .new = .ok builder
  finish : builder.finish id header = .ok checkpoint

section Files
variable {id : Bytes} {maxBytes : Nat} {bytes : Bytes} {checkpoint : Checkpoint}
open CcsnStreamDecoder

variable {start middle tail : Bytes} {header : CcsnHeader}

theorem headerRead_append (starts : start.length = Checkpoint.headerLen) (others : Bytes) :
    CcsnHeader.read id (start ++ others) = CcsnHeader.read id start := by
  have inside : 74 = start.length := starts.symm
  unfold CcsnHeader.read
  rw [List.take_append_of_le_length (by rw [starts]), List.take_of_length_le (by rw [starts])]
  repeat rw [slice_append (by omega)]

theorem slice_end (front tail : Bytes) (start stop : Nat) :
    slice (front ++ tail) (front.length + start) (front.length + stop) = slice tail start stop := by
  unfold slice
  rw [List.drop_append, Nat.add_sub_add_left, List.drop_eq_nil_of_le (Nat.le_add_right _ _), List.nil_append,
    Nat.add_sub_cancel_left]

theorem decodeCcsn_file_iff (bounded : bytes.length ≤ u64Max) (whole : bytes = start ++ middle ++ tail)
    (starts : start.length = Checkpoint.headerLen) (ends : tail.length = Checkpoint.footerLen) :
    decodeCcsn bytes id maxBytes = .ok checkpoint ↔
      ∃ header builder, CcsnFile id maxBytes bytes checkpoint start middle tail header builder := by
  have footer : bytes.length - Checkpoint.footerLen = (start ++ middle).length := by
    rw [whole, List.length_append, ends, Nat.add_sub_cancel]
  have length_bytes : slice bytes (start ++ middle).length ((start ++ middle).length + 8) = slice tail 0 8 := by
    rw [whole]
    exact slice_end (start ++ middle) tail 0 8
  have recordsSum_bytes : slice bytes ((start ++ middle).length + 8) ((start ++ middle).length + 12) =
      slice tail 8 12 := by
    rw [whole, slice_end]
  have fileSum_bytes : slice bytes ((start ++ middle).length + 12) ((start ++ middle).length + 16) =
      slice tail 12 16 := by
    rw [whole, slice_end]
  have last_bytes : tail.drop 16 = slice tail 16 20 := by
    rw [slice, List.take_of_length_le (by rw [List.length_drop, ends]; decide)]
  have middle_bytes : slice bytes Checkpoint.headerLen (start ++ middle).length = middle := by
    rw [whole, slice, List.append_assoc, ← starts, List.drop_left, List.length_append, Nat.add_sub_cancel_left,
      List.take_left]
  have front_bytes : bytes.take ((start ++ middle).length + 12) = start ++ middle ++ slice tail 0 12 := by
    rw [whole, List.take_length_add_append, slice, List.drop_zero, Nat.sub_zero]
  have end_bytes : bytes.drop ((start ++ middle).length + 16) = slice tail 16 20 := by
    rw [whole, List.drop_length_add_append, last_bytes]
  have header_bytes : CcsnHeader.read id bytes = CcsnHeader.read id start := by
    rw [whole, List.append_assoc, headerRead_append starts]
  have long : bytes.length ≥ Checkpoint.headerLen + Checkpoint.footerLen := by
    rw [whole, List.length_append, List.length_append, starts, ends]
    omega
  unfold decodeCcsn
  dsimp only
  rw [footer, header_bytes, middle_bytes, front_bytes, end_bytes, length_bytes, recordsSum_bytes, fileSum_bytes,
    min_eq_left bounded]
  simp only [bind_ok_iff, require_ok_iff, Bool.and_eq_true, beq_iff_eq, decide_eq_true_eq]
  constructor
  · rintro ⟨_, within, _, -, header, opens, _, ⟨⟨length, magic⟩, recordsSum⟩, _, fileSum, builder, records, finished⟩
    exact ⟨header, builder, whole, starts, ends, within, opens, length, magic, recordsSum, fileSum, records, finished⟩
  · rintro ⟨header, builder, file⟩
    exact ⟨(), file.bounded, (), long, header, file.opens, (), ⟨⟨file.length, file.magic⟩, file.recordsSum⟩, (),
      file.fileSum, builder, file.records, file.finish⟩

theorem decodeCcsn_iff (bounded : bytes.length ≤ u64Max) : decodeCcsn bytes id maxBytes = .ok checkpoint ↔
    ∃ start middle tail header builder, CcsnFile id maxBytes bytes checkpoint start middle tail header builder := by
  constructor
  · intro decoded
    have long : Checkpoint.headerLen + Checkpoint.footerLen ≤ bytes.length := by
      simp only [decodeCcsn, bind_ok_iff, require_ok_iff] at decoded
      obtain ⟨_, -, _, long, -⟩ := decoded
      exact of_decide_eq_true long
    have whole : bytes = bytes.take Checkpoint.headerLen ++
        slice bytes Checkpoint.headerLen (bytes.length - Checkpoint.footerLen) ++
          bytes.drop (bytes.length - Checkpoint.footerLen) := by
      have together : Checkpoint.headerLen + (bytes.length - Checkpoint.footerLen - Checkpoint.headerLen) =
          bytes.length - Checkpoint.footerLen := by omega
      rw [slice, ← List.take_add, together, List.take_append_drop]
    have starts : (bytes.take Checkpoint.headerLen).length = Checkpoint.headerLen := by
      rw [List.length_take]
      omega
    have ends : (bytes.drop (bytes.length - Checkpoint.footerLen)).length = Checkpoint.footerLen := by
      rw [List.length_drop]
      omega
    exact ⟨_, _, _, (decodeCcsn_file_iff bounded whole starts ends).mp decoded⟩
  · rintro ⟨start, middle, tail, header, builder, file⟩
    exact (decodeCcsn_file_iff bounded file.whole file.starts file.ends).mpr ⟨header, builder, file⟩

theorem read_start (starts : start.length = Checkpoint.headerLen) (others : Bytes) :
    (Progress.reader id).read .start (start ++ others) = CcsnHeader.read id start >>= fun header =>
      (Progress.reader id).read (Progress.start.withHeader start header) others := by
  have needs : (Progress.reader id).need .start (start ++ others) = .ok (some start.length) := by
    rw [starts]
    rfl
  rw [Reader.read_takes _ needs (by rw [List.length_append]; omega), List.take_left, List.drop_left]
  change (CcsnHeader.read id start).map _ >>= _ = _
  cases CcsnHeader.read id start <;> rfl

theorem finish_closed {decoder : CcsnStreamDecoder} (held : decoder.header = some header) :
    decoder.closed.finish = (decoder.builder.finish decoder.expectedClusterId header).map fun checkpoint =>
      (checkpoint, ~~~ decoder.closed.fileCrc) := by
  have held' : decoder.closed.header = some header := held
  rw [finish, held']
  rfl

theorem complete_of_finish {decoder : CcsnStreamDecoder} {sum : BitVec 32}
    (finished : decoder.finish = .ok (checkpoint, sum)) : decoder.complete = true := by
  by_contra incomplete
  simp [finish, incomplete] at finished

theorem seen_of_finish {builder : CcsnBuilder} (finished : builder.finish id header = .ok checkpoint) :
    builder.seen = header.recordCount := by
  unfold CcsnBuilder.finish at finished
  split at finished
  · cases finished
  · cases finished
  · simp at finished
    exact finished.1.1

def atFooter (id : Bytes) (maxBytes : Nat) (start middle tail : Bytes) (header : CcsnHeader) (builder : CcsnBuilder) :
    CcsnStreamDecoder :=
  ((Progress.start.withHeader start header).withRecord middle builder).decoder id maxBytes
    (start ++ middle ++ tail).length tail

theorem closes_atFooter_iff {builder : CcsnBuilder} : Closes (atFooter id maxBytes start middle tail header builder) ↔
      tail.length = Checkpoint.footerLen ∧ leNat (slice tail 0 8) = (start ++ middle ++ tail).length ∧
      leNat (slice tail 16 20) = ccsnEndMagic ∧ (crc32c middle).toNat = leNat (slice tail 8 12) ∧
      (crc32c (start ++ middle ++ slice tail 0 12 ++ List.replicate 4 0 ++ slice tail 16 20)).toNat =
        leNat (slice tail 12 16) := by
  have sum : crcUpdate (atFooter id maxBytes start middle tail header builder).fileCrc
      (slice tail 0 12 ++ (List.replicate 4 0 ++ slice tail 16 20)) = crcUpdate (BitVec.allOnes 32)
        (start ++ middle ++ slice tail 0 12 ++ List.replicate 4 0 ++ slice tail 16 20) := by
    rw [List.append_assoc (start ++ middle ++ _), List.append_assoc (start ++ middle),
      crcUpdate_append _ (start ++ middle), crcUpdate_append _ start]
    rfl
  rw [crc32c, crc32c, ← sum]
  constructor
  · intro closes
    exact ⟨closes.ends, closes.length, closes.magic, closes.recordsSum, closes.fileSum⟩
  · rintro ⟨ends, length, magic, recordsSum, fileSum⟩
    exact ⟨ends, length, magic, recordsSum, fileSum⟩

theorem reached_iff (bounded : bytes.length ≤ u64Max) :
    (∃ decoder sum, reached id maxBytes bytes = .ok decoder ∧ decoder.finish = .ok (checkpoint, sum)) ↔
    ∃ start middle tail header builder, CcsnFile id maxBytes bytes checkpoint start middle tail header builder := by
  constructor
  · rintro ⟨decoder, sum, done, finished⟩
    obtain ⟨-, within⟩ := limits_of_reached done
    rw [reached_eq bounded within] at done
    obtain ⟨⟨progress, rest⟩, read, settled⟩ := bind_ok_iff.mp done
    have complete := complete_of_finish finished
    rw [settle_ok_iff] at settled
    split at settled
    next due =>
      obtain ⟨closes, rfl⟩ := settled
      rcases Nat.lt_or_ge bytes.length Checkpoint.headerLen with short | long
      · -- without a header no footer is due
        rw [Reader.read_short _ (by rfl) short] at read
        obtain ⟨rfl, rfl⟩ := Prod.mk.inj (Except.ok.inj read)
        cases due
      · have starts : (bytes.take Checkpoint.headerLen).length = Checkpoint.headerLen := by
          rw [List.length_take]
          omega
        rw [← List.take_append_drop Checkpoint.headerLen bytes, read_start starts] at read
        obtain ⟨header, opens, read⟩ := bind_ok_iff.mp read
        obtain ⟨middle, cut, same, records⟩ := decodeRecords_of_read rfl read
        have whole : bytes = bytes.take Checkpoint.headerLen ++ middle ++ rest := by
          rw [List.append_assoc, ← cut, List.take_append_drop]
        have here : progress.decoder id maxBytes bytes.length rest =
            atFooter id maxBytes (bytes.take Checkpoint.headerLen) middle rest header progress.builder := by
          rw [atFooter, ← whole, ← same]
        rw [here] at closes finished
        obtain ⟨ends, length, magic, recordsSum, fileSum⟩ := closes_atFooter_iff.mp closes
        rw [← whole] at length
        rw [finish_closed rfl] at finished
        obtain ⟨found, finish, same⟩ := map_ok_iff.mp finished
        obtain ⟨rfl, -⟩ := Prod.mk.inj same
        exact ⟨_, middle, rest, header, progress.builder, whole, starts, ends, within, opens, length, magic,
          recordsSum, fileSum, records _ le_rfl, finish⟩
    next =>
      rw [settled] at complete
      cases complete
  · rintro ⟨start, middle, tail, header, builder, file⟩
    have seen := seen_of_finish file.finish
    have read : (Progress.reader id).read .start bytes =
        .ok ((Progress.start.withHeader start header).withRecord middle builder, tail) := by
      rw [file.whole, List.append_assoc, read_start file.starts, file.opens]
      exact read_of_decodeRecords rfl file.records le_rfl seen.not_lt
    have due : (((Progress.start.withHeader start header).withRecord middle builder).recordsEnded &&
        decide (Checkpoint.footerLen ≤ tail.length)) = true :=
      Bool.and_eq_true_iff.mpr ⟨(Bool.not_eq_true' _).mpr (decide_eq_false seen.not_lt), decide_eq_true file.ends.ge⟩
    have closes : Closes (atFooter id maxBytes start middle tail header builder) :=
      closes_atFooter_iff.mpr
        ⟨file.ends, by rw [← file.whole]; exact file.length, file.magic, file.recordsSum, file.fileSum⟩
    refine ⟨(atFooter id maxBytes start middle tail header builder).closed,
      ~~~ (atFooter id maxBytes start middle tail header builder).closed.fileCrc, ?_, ?_⟩
    · rw [reached_eq bounded file.bounded, read, file.whole]
      refine settle_ok_iff.mpr ?_
      rw [if_pos due]
      exact ⟨closes, rfl⟩
    · rw [finish_closed rfl]
      exact map_ok_iff.mpr ⟨checkpoint, file.finish, rfl⟩

end Files

/-- A file in pieces is accepted exactly if it is accepted as a whole, with the same result. -/
theorem decodeChunks_eq_whole (id : Bytes) (maxBytes : Nat) (typed : maxBytes ≤ u64Max) (chunks : List Bytes)
    (some_bytes : ∀ chunk ∈ chunks, chunk ≠ []) (bounded : chunks.flatten.length ≤ maxBytes)
    (checkpoint : Checkpoint) : (∃ sum, CcsnStreamDecoder.decodeChunks id maxBytes chunks = .ok (checkpoint, sum)) ↔
      decodeCcsn chunks.flatten id maxBytes = .ok checkpoint := by
  have short : chunks.flatten.length ≤ u64Max := bounded.trans typed
  rw [decodeCcsn_iff short, ← reached_iff short]
  simp only [CcsnStreamDecoder.decodeChunks, bind_ok_iff, CcsnStreamDecoder.foldlM_push_iff some_bytes]
  exact exists_comm

def loneFile : Bytes := (encodeCcsn loneCheckpoint).toOption.getD []

theorem loneFile_in_pieces : ∃ checkpoint sum, CcsnStreamDecoder.decodeChunks (List.replicate 16 1) 400
    [loneFile.take 80, (loneFile.drop 80).take 200, loneFile.drop 280] = .ok (checkpoint, sum) := by
  have whole : [loneFile.take 80, (loneFile.drop 80).take 200, loneFile.drop 280].flatten = loneFile := by
    decide +kernel
  have accepted : (decodeCcsn loneFile (List.replicate 16 1) 400).isOk = true := by decide +kernel
  obtain ⟨checkpoint, decoded⟩ := isOk_iff.mp accepted
  have bounded : loneFile.length ≤ 400 := by decide +kernel
  refine ⟨checkpoint, (decodeChunks_eq_whole _ 400 (by decide) _ (by decide +kernel) (by rwa [whole]) _).mpr ?_⟩
  rw [whole, decoded]

end CrashCourse.Cluster
