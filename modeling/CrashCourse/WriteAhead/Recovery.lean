import CrashCourse.WriteAhead.Layout

/-!
Recovery after a crash. What is left of a cut record is dropped unless some offset inside
it reads as a record.
-/

namespace CrashCourse.WriteAhead
open CrashCourse.Core

def LogRecord.isPad (record : LogRecord) : Bool := record.kind = .pad

def unpadded (records : List LogRecord) : List LogRecord := records.filter fun record => !record.isPad

theorem unpadded_append (records others : List LogRecord) :
    unpadded (records ++ others) = unpadded records ++ unpadded others := List.filter_append ..

section Scan
variable {image : SegmentImage} {later : Bool} {maxRecordSize fuel : Nat} {records : List LogRecord}

variable {offset count : Nat} {after before payload : Bytes} {kind : RecordType}

theorem scanSegment_end (passed : image.bytes.length ≤ offset) :
    scanSegment image later maxRecordSize fuel offset records = some (.ok ⟨records, image.bytes, none⟩) := by
  cases fuel with
  | zero => rfl
  | succ fuel => rw [scanSegment, if_neg (by omega)]

theorem scanSegment_zeros (zeros : (image.bytes.drop offset).all (· == 0) = true) :
    ∃ output, scanSegment image later maxRecordSize (fuel + 1) offset records =
      some (.ok ⟨records, output, none⟩) := by
  rw [scanSegment]
  split
  · rw [parseRecord_zeros zeros]
    exact ⟨_, rfl⟩
  · exact ⟨_, rfl⟩

theorem scanSegment_frame (fits : Fits maxRecordSize payload)
    (bytes : image.bytes = before ++ (frame kind payload ++ after)) (low : before.length ≤ u32Max) :
    scanSegment image later maxRecordSize (fuel + 1) before.length records =
      scanSegment image later maxRecordSize fuel (before.length + (frame kind payload).length)
        (records ++ unpadded [⟨⟨image.sequence, before.length⟩, kind, payload⟩]) := by
  have inside : before.length < image.bytes.length := by
    rw [bytes, List.length_append, List.length_append, frame_length, recordHeaderSize]
    omega
  rw [scanSegment, if_pos inside, bytes, parseRecord_frame fits before after image.sequence low]
  by_cases pad : kind = .pad
  · simp [unpadded, LogRecord.isPad, pad]
  · simp [unpadded, LogRecord.isPad, pad]

theorem scanSegment_items {items : List Item} (fits : ∀ item ∈ items, Fits maxRecordSize item.2)
    (bytes : image.bytes = before ++ (frames items ++ after)) (low : before.length + (frames items).length ≤ u32Max) :
    scanSegment image later maxRecordSize (items.length + fuel) before.length records =
      scanSegment image later maxRecordSize fuel (before.length + (frames items).length)
        (records ++ unpadded (recordsFrom image.sequence before.length items)) := by
  induction items generalizing before records with
  | nil => simp [recordsFrom, unpadded]
  | cons item items ih =>
    rw [frames_cons, List.length_append] at low
    rw [frames_cons, List.append_assoc] at bytes
    have first := fits item (List.mem_cons_self ..)
    have rest : ∀ other ∈ items, Fits maxRecordSize other.2 := fun other held =>
      fits other (List.mem_cons_of_mem _ held)
    have shifted : before.length + item.frame.length = (before ++ item.frame).length := (List.length_append ..).symm
    rw [List.length_cons, add_right_comm]
    calc
      _ = scanSegment image later maxRecordSize (items.length + fuel) (before ++ item.frame).length
          (records ++ unpadded [⟨⟨image.sequence, before.length⟩, item.1, item.2⟩]) := by
        rw [← shifted]
        exact scanSegment_frame first bytes (by omega)
      _ = _ := by
        rw [ih rest (by rw [bytes, List.append_assoc]) (by rw [← shifted]; omega), frames_cons, recordsFrom,
          ← shifted, List.length_append, List.append_assoc, ← unpadded_append, add_assoc]
        rfl

theorem scanSegment_padding {padding : Bytes} (pad : IsPadding maxRecordSize padding)
    (bytes : image.bytes = before ++ padding) (low : before.length ≤ u32Max) :
    ∃ output, scanSegment image later maxRecordSize (fuel + 1) before.length records =
      some (.ok ⟨records, output, none⟩) := by
  cases pad with
  | zeros count =>
    refine scanSegment_zeros ?_
    rw [bytes, List.drop_left]
    simp
  | pad count fits =>
    have whole' : image.bytes = before ++ (frame .pad (List.replicate count 0) ++ []) := by
      rw [bytes, List.append_nil]
    rw [scanSegment_frame fits whole' low, scanSegment_end (by rw [bytes, List.length_append])]
    exact ⟨image.bytes, by simp [unpadded, LogRecord.isPad]⟩

/-- The scan goes through a cut record unless it finds a record behind its first byte. -/
theorem scanSegment_torn (short : payload.length ≤ u32Max) (torn : count < (frame kind payload).length)
    (bytes : image.bytes = before ++ (frame kind payload).take count) (low : before.length ≤ u32Max)
    (none' : hasValidRecordAfter image.bytes image.sequence before.length maxRecordSize = some false) :
    ∃ output cut, scanSegment image false maxRecordSize (fuel + 1) before.length records =
      some (.ok ⟨records, output, cut⟩) := by
  cases zeros : ((frame kind payload).take count).all (· == 0) with
  | true =>
    have rest : (image.bytes.drop before.length).all (· == 0) = true := by rw [bytes, List.drop_left, zeros]
    have done : ∃ output, scanSegment image false maxRecordSize (fuel + 1) before.length records =
        some (.ok ⟨records, output, none⟩) := scanSegment_zeros rest
    exact done.imp fun output done => ⟨none, done⟩
  | false =>
    obtain ⟨error, failed⟩ := parseRecord_torn short torn before image.sequence maxRecordSize zeros
    rw [← bytes] at failed
    rw [scanSegment]
    split
    · refine ⟨image.bytes.take before.length, some ⟨image.sequence, before.length⟩, ?_⟩
      rw [failed, none']
      simp [not_lt.mpr low]
    · exact ⟨_, _, rfl⟩

theorem scanSegment_mistaken (short : payload.length ≤ u32Max) (torn : count < (frame kind payload).length)
    (bytes : image.bytes = before ++ (frame kind payload).take count) (positive : 0 < count)
    (nonzero : ((frame kind payload).take count).all (· == 0) = false)
    (found : hasValidRecordAfter image.bytes image.sequence before.length maxRecordSize ≠ some false)
    (scanned : Scanned) :
    scanSegment image false maxRecordSize (fuel + 1) before.length records ≠ some (.ok scanned) := by
  obtain ⟨error, failed⟩ := parseRecord_torn short torn before image.sequence maxRecordSize nonzero
  rw [← bytes] at failed
  have inside : before.length < image.bytes.length := by
    rw [bytes, List.length_append, List.length_take]
    omega
  rw [scanSegment, if_pos inside, failed]
  cases valid : hasValidRecordAfter image.bytes image.sequence before.length maxRecordSize with
  | none => simp
  | some later =>
    cases later with
    | true => simp
    | false => exact absurd valid found

end Scan

namespace LogRecord

def stop (record : LogRecord) : Nat := record.lsn.offset + recordHeaderSize + record.payload.length

abbrev TornIn (record : LogRecord) (image : SegmentImage) : Prop :=
  record.lsn.segment = image.sequence ∧ record.lsn.offset < image.bytes.length ∧ image.bytes.length < record.stop

end LogRecord

variable {items : List Item} {sequence maxRecordSize : Nat}

theorem recordsFrom_bounds {offset : Nat} {record : LogRecord} (held : record ∈ recordsFrom sequence offset items) :
    record.lsn.segment = sequence ∧ offset ≤ record.lsn.offset ∧ record.stop ≤ offset + (frames items).length := by
  induction items generalizing offset with
  | nil => cases held
  | cons item items ih =>
    rw [frames_cons, List.length_append]
    rcases List.mem_cons.mp held with rfl | later
    · refine ⟨rfl, le_rfl, ?_⟩
      have size : item.frame.length = recordHeaderSize + item.2.length := frame_length ..
      change offset + recordHeaderSize + item.2.length ≤ _
      omega
    · obtain ⟨segment, low, high⟩ := ih later
      exact ⟨segment, by omega, by omega⟩

/-- What is left of a record that was cut does not read as a record at some later offset. -/
abbrev Clean (maxRecordSize : Nat) (records : List LogRecord) (image : SegmentImage) : Prop :=
  ∀ record ∈ records, record.TornIn image →
    hasValidRecordAfter image.bytes image.sequence record.lsn.offset maxRecordSize = some false

theorem checkHeader_ok (low : sequence ≤ u64Max) (rest : Bytes) :
    checkHeader ⟨sequence, segmentHeader sequence ++ rest⟩ sequence = .ok () := by
  have magic : (segmentHeader sequence ++ rest).take 4 = walMagic := by
    rw [segmentHeader, List.append_assoc, List.append_assoc]
    exact List.take_left' rfl
  have version : leNat (((segmentHeader sequence ++ rest).drop 4).take 2) = formatVersion := by
    rw [segmentHeader, List.append_assoc, List.append_assoc, List.drop_left' (by rfl), List.take_left' (by rfl)]
    rfl
  have number : leNat (((segmentHeader sequence ++ rest).drop 6).take 8) = sequence := by
    rw [segmentHeader, List.append_assoc, List.drop_left' (by rfl),
      List.take_left' (show (Enc.u64 sequence).length = 8 from leBytes_length 8 _)]
    refine leNat_leBytes_of_lt ?_
    unfold u64Max at low
    omega
  unfold checkHeader
  dsimp only
  rw [if_neg (by simp), if_neg (by rw [List.length_append, segmentHeader_length]; omega), magic, version, number,
    if_neg (by simp), if_neg (by simp)]

def imageOf (sequence : Nat) (items : List Item) (tail : Bytes) : SegmentImage :=
  ⟨sequence, segmentHeader sequence ++ (frames items ++ tail)⟩

theorem imageOf_length (sequence : Nat) (items : List Item) (tail : Bytes) :
    (imageOf sequence items tail).bytes.length = segmentHeaderSize + ((frames items).length + tail.length) := by
  simp only [imageOf, List.length_append, segmentHeader_length]

theorem scanSegment_whole (fits : ∀ item ∈ items, Fits maxRecordSize item.2)
    (low : segmentHeaderSize + (frames items).length ≤ u32Max) (sequence : Nat) (tail : Bytes) (later : Bool)
    (records : List LogRecord) :
    ∃ fuel, scanSegment (imageOf sequence items tail) later maxRecordSize (imageOf sequence items tail).bytes.length
        segmentHeaderSize records =
      scanSegment (imageOf sequence items tail) later maxRecordSize (fuel + 1)
        (segmentHeader sequence ++ frames items).length
        (records ++ unpadded (recordsFrom sequence segmentHeaderSize items)) := by
  have header := segmentHeader_length sequence
  have count := length_le_frames items
  obtain ⟨fuel, enough⟩ : ∃ fuel, (imageOf sequence items tail).bytes.length = items.length + (fuel + 1) := by
    refine ⟨(imageOf sequence items tail).bytes.length - items.length - 1, ?_⟩
    rw [imageOf_length, segmentHeaderSize]
    omega
  refine ⟨fuel, ?_⟩
  rw [enough, List.length_append, ← header]
  exact scanSegment_items fits rfl (by rw [header]; exact low)

theorem hasValidRecordAfter_zeros {bytes : Bytes} {start : Nat} (zeros : (bytes.drop start).all (· == 0) = true)
    (sequence maxRecordSize : Nat) : hasValidRecordAfter bytes sequence start maxRecordSize = some false := by
  refine anyM_eq_some_false ?_
  intro offset held
  obtain ⟨step, -, rfl⟩ := List.mem_range'.mp held
  have rest : (bytes.drop (start + 1 + 1 * step)).all (· == 0) = true := by
    rw [one_mul, add_assoc, ← List.drop_drop]
    exact List.all_eq_true.mpr fun byte held => List.all_eq_true.mp zeros byte (List.mem_of_mem_drop held)
  rw [parseRecord_zeros rest]
  rfl

section Last
variable {maxRecordSize : Nat} {items : List Item} (fits : ∀ item ∈ items, Fits maxRecordSize item.2)
  (low : segmentHeaderSize + (frames items).length ≤ u32Max)
include fits low

theorem scanSegment_padded {padding : Bytes} (pad : IsPadding maxRecordSize padding) (sequence : Nat)
    (later : Bool) (records : List LogRecord) :
    ∃ output, scanSegment (imageOf sequence items padding) later maxRecordSize
        (imageOf sequence items padding).bytes.length segmentHeaderSize records =
      some (.ok ⟨records ++ unpadded (recordsFrom sequence segmentHeaderSize items), output, none⟩) := by
  obtain ⟨fuel, done⟩ := scanSegment_whole fits low sequence padding later records
  rw [done]
  refine scanSegment_padding pad ?_ ?_
  · rw [imageOf, List.append_assoc]
  · rw [List.length_append, segmentHeader_length]
    exact low

theorem scanSegment_cut_padding {padding : Bytes} (pad : IsPadding maxRecordSize padding) (sequence left : Nat)
    (records : List LogRecord) :
    ∃ output cut, scanSegment (imageOf sequence items (padding.take left)) false maxRecordSize
        (imageOf sequence items (padding.take left)).bytes.length segmentHeaderSize records =
      some (.ok ⟨records ++ unpadded (recordsFrom sequence segmentHeaderSize items), output, cut⟩) := by
  cases pad with
  | zeros count =>
    rw [List.take_replicate]
    obtain ⟨output, done⟩ := scanSegment_padded fits low (.zeros (min left count)) sequence false records
    exact ⟨output, none, done⟩
  | pad count padFits =>
    rcases Nat.lt_or_ge left (frame .pad (List.replicate count 0)).length with torn | enough
    · obtain ⟨fuel, done⟩ :=
        scanSegment_whole fits low sequence ((frame .pad (List.replicate count 0)).take left) false records
      have split : (imageOf sequence items ((frame .pad (List.replicate count 0)).take left)).bytes =
          (segmentHeader sequence ++ frames items) ++ (frame .pad (List.replicate count 0)).take left := by
        rw [imageOf, List.append_assoc]
      rw [done]
      refine scanSegment_torn padFits.length torn split ?_ ?_
      · rw [List.length_append, segmentHeader_length]
        exact low
      · rw [split]
        exact hasValidRecordAfter_pad ..
    · rw [List.take_of_length_le enough]
      obtain ⟨output, done⟩ := scanSegment_padded fits low (.pad count padFits) sequence false records
      exact ⟨output, none, done⟩

theorem scanSegment_cut_record {item : Item} (short : item.2.length ≤ u32Max) {left : Nat} (positive : 0 < left)
    (torn : left < item.frame.length) (sequence : Nat) (records : List LogRecord) :
    (hasValidRecordAfter (imageOf sequence items (item.frame.take left)).bytes sequence
        (segmentHeaderSize + (frames items).length) maxRecordSize = some false → ∃ output cut,
      scanSegment (imageOf sequence items (item.frame.take left)) false maxRecordSize
          (imageOf sequence items (item.frame.take left)).bytes.length segmentHeaderSize records =
        some (.ok ⟨records ++ unpadded (recordsFrom sequence segmentHeaderSize items), output, cut⟩)) ∧
    (hasValidRecordAfter (imageOf sequence items (item.frame.take left)).bytes sequence
        (segmentHeaderSize + (frames items).length) maxRecordSize ≠ some false → ∀ scanned,
      scanSegment (imageOf sequence items (item.frame.take left)) false maxRecordSize
          (imageOf sequence items (item.frame.take left)).bytes.length segmentHeaderSize records ≠
        some (.ok scanned)) := by
  obtain ⟨fuel, done⟩ := scanSegment_whole fits low sequence (item.frame.take left) false records
  have split : (imageOf sequence items (item.frame.take left)).bytes =
      (segmentHeader sequence ++ frames items) ++ item.frame.take left := by
    rw [imageOf, List.append_assoc]
  have offset : segmentHeaderSize + (frames items).length = (segmentHeader sequence ++ frames items).length := by
    rw [List.length_append, segmentHeader_length]
  rw [done, offset]
  constructor
  · intro none'
    exact scanSegment_torn short torn split (offset ▸ low) none'
  · intro found
    refine scanSegment_mistaken short torn split positive ?_ found
    -- Zeros never read as a record, so something of the frame is not zero.
    by_contra zeros
    refine found (hasValidRecordAfter_zeros ?_ ..)
    rw [split, List.drop_left]
    exact Bool.not_eq_false _ ▸ zeros

end Last

section One
variable {maxRecordSize : Nat} {image : SegmentImage} (header : checkHeader image image.sequence = .ok ())
  {records : List LogRecord} {normalized : List SegmentImage}
include header

theorem recoverSegments_ok {records' : List LogRecord}
    (done : ∃ output cut, scanSegment image false maxRecordSize image.bytes.length segmentHeaderSize records =
      some (.ok ⟨records', output, cut⟩)) :
    ∃ recovered, recoverSegments maxRecordSize image.sequence [image] records normalized = some (.ok recovered) ∧
      recovered.records = records' := by
  obtain ⟨output, cut, done⟩ := done
  refine ⟨⟨records', normalized ++ [⟨image.sequence, output⟩], cut⟩, ?_, rfl⟩
  cases cut with
  | none | some lsn => simp [recoverSegments, header, done]

theorem recoverSegments_fails
    (failed : ∀ scanned, scanSegment image false maxRecordSize image.bytes.length segmentHeaderSize records ≠
      some (.ok scanned)) (recovered : RecoveredWal) :
    recoverSegments maxRecordSize image.sequence [image] records normalized ≠ some (.ok recovered) := by
  intro done
  simp only [recoverSegments, header, List.isEmpty_nil, Bool.not_true] at done
  cases result : scanSegment image false maxRecordSize image.bytes.length segmentHeaderSize records with
  | none => simp [result] at done
  | some outcome =>
    cases outcome with
    | error error => simp [result] at done
    | ok scanned => exact failed scanned result

end One

theorem recoverSegments_front {index : Nat} {front : List Filled} (numbered : Numbered index front)
    (proper : ∀ filled ∈ front, filled.Proper maxRecordSize) (last : SegmentImage) (records : List LogRecord)
    (normalized : List SegmentImage) :
    ∃ normalized', recoverSegments maxRecordSize index (front.map Filled.image ++ [last]) records normalized =
      recoverSegments maxRecordSize (index + front.length) [last]
        (records ++ unpadded (front.flatMap Filled.records)) normalized' := by
  induction front generalizing index records normalized with
  | nil => exact ⟨normalized, by simp [unpadded]⟩
  | cons filled front ih =>
    obtain ⟨rfl, numbered⟩ := numbered
    have good := proper filled (List.mem_cons_self ..)
    have header : checkHeader filled.image filled.sequence = .ok () := checkHeader_ok good.sequence _
    obtain ⟨output, done⟩ := scanSegment_padded good.items good.low good.padding filled.sequence true records
    have done' : scanSegment filled.image true maxRecordSize filled.image.bytes.length segmentHeaderSize records =
        some (.ok ⟨records ++ unpadded filled.records, output, none⟩) := done
    obtain ⟨normalized', rest⟩ := ih numbered (fun other held => proper other (List.mem_cons_of_mem _ held))
      (records ++ unpadded filled.records) (normalized ++ [⟨filled.image.sequence, output⟩])
    refine ⟨normalized', ?_⟩
    rw [List.map_cons, List.cons_append, recoverSegments, header]
    have more : (!(front.map Filled.image ++ [last]).isEmpty) = true := by simp
    simp only [more, done', Option.isSome_none, Bool.false_eq_true, if_false]
    rw [rest, List.length_cons, List.flatMap_cons, unpadded_append, List.append_assoc, add_assoc, add_comm 1]

theorem clean_iff {front back : List Item} {item : Item} {left : Nat} (short : left < item.frame.length) :
    Clean maxRecordSize (recordsFrom sequence segmentHeaderSize (front ++ item :: back))
        (imageOf sequence front (item.frame.take left)) ↔
      (0 < left → hasValidRecordAfter (imageOf sequence front (item.frame.take left)).bytes sequence
        (segmentHeaderSize + (frames front).length) maxRecordSize = some false) := by
  have size : item.frame.length = recordHeaderSize + item.2.length := frame_length ..
  have length : (imageOf sequence front (item.frame.take left)).bytes.length =
      segmentHeaderSize + ((frames front).length + left) := by
    rw [imageOf_length, List.length_take, min_eq_left short.le]
  rw [recordsFrom_append, recordsFrom]
  constructor
  · intro clean positive
    refine clean _ (List.mem_append_right _ (List.mem_cons_self ..)) ⟨rfl, ?_, ?_⟩
    · rw [length]
      exact Nat.add_lt_add_left (Nat.lt_add_of_pos_right positive) _
    · rw [length]
      change _ < segmentHeaderSize + (frames front).length + recordHeaderSize + item.2.length
      omega
  · intro none' record held torn
    obtain ⟨-, began, ended⟩ := torn
    rw [length] at began ended
    rcases List.mem_append.mp held with before | held
    · have := (recordsFrom_bounds before).2.2
      omega
    · rcases List.mem_cons.mp held with rfl | after
      · exact none' (by change segmentHeaderSize + (frames front).length < _ at began; omega)
      · have := (recordsFrom_bounds after).2.1
        omega

theorem clean_of_whole (tail : Bytes) :
    Clean maxRecordSize (recordsFrom sequence segmentHeaderSize items) (imageOf sequence items tail) := by
  intro record held torn
  have := (recordsFrom_bounds held).2.2
  have ended := torn.2.2
  rw [imageOf_length] at ended
  omega

theorem recoverSegments_last {last : Filled} (proper : last.Proper maxRecordSize) {count : Nat}
    (long : segmentHeaderSize ≤ count) (records : List LogRecord) (normalized : List SegmentImage) :
    (Clean maxRecordSize last.records ⟨last.sequence, last.bytes.take count⟩ → ∃ recovered,
      recoverSegments maxRecordSize last.sequence [⟨last.sequence, last.bytes.take count⟩] records normalized =
        some (.ok recovered) ∧ recovered.records =
          records ++ unpadded (last.records.take (whole last.items (count - segmentHeaderSize)))) ∧
    (¬ Clean maxRecordSize last.records ⟨last.sequence, last.bytes.take count⟩ → ∀ recovered,
      recoverSegments maxRecordSize last.sequence [⟨last.sequence, last.bytes.take count⟩] records normalized ≠
        some (.ok recovered)) := by
  have split : last.bytes.take count =
      segmentHeader last.sequence ++ (frames last.items ++ last.padding).take (count - segmentHeaderSize) := by
    rw [Filled.bytes, List.take_append, List.take_of_length_le (by rw [segmentHeader_length]; exact long),
      segmentHeader_length]
  have low := proper.low
  have fits := proper.items
  rw [split]
  rcases take_frames last.items last.padding (count - segmentHeaderSize) with
    ⟨front, item, back, parts, same, left, short, bytes⟩ | ⟨same, enough, bytes⟩
  · rw [bytes, same]
    have kept : last.records.take front.length = recordsFrom last.sequence segmentHeaderSize front := by
      rw [Filled.records, parts, recordsFrom_append]
      exact List.take_left' (recordsFrom_length ..)
    rw [parts, frames_append, List.length_append] at low
    rw [parts] at fits
    have frontFits : ∀ item ∈ front, Fits maxRecordSize item.2 := fun item held =>
      fits item (List.mem_append_left _ held)
    have itemFits := fits item (List.mem_append_right _ (List.mem_cons_self ..))
    rw [kept, Filled.records, parts]
    change (Clean _ _ (imageOf last.sequence front (item.frame.take left)) → _) ∧
      (¬ Clean _ _ (imageOf last.sequence front (item.frame.take left)) → _)
    rw [clean_iff short]
    have header : checkHeader (imageOf last.sequence front (item.frame.take left)) last.sequence = .ok () :=
      checkHeader_ok proper.sequence _
    rcases Nat.eq_zero_or_pos left with rfl | positive
    · constructor
      · intro _
        exact recoverSegments_ok header
          (scanSegment_cut_padding frontFits (by omega) (.zeros 0) last.sequence 0 records)
      · intro unclean
        exact absurd (fun none' => absurd none' (lt_irrefl 0)) unclean
    · obtain ⟨ok, fails⟩ :=
        scanSegment_cut_record frontFits (by omega) itemFits.length positive short last.sequence records
      constructor
      · intro clean
        exact recoverSegments_ok header (ok (clean positive))
      · intro unclean
        exact recoverSegments_fails header (fails fun none' => unclean fun _ => none')
  · rw [bytes, same]
    have kept : last.records.take last.items.length = last.records := by
      rw [← records_length, List.take_length]
    rw [kept]
    constructor
    · intro _
      exact recoverSegments_ok (checkHeader_ok proper.sequence _) (scanSegment_cut_padding fits low proper.padding ..)
    · intro unclean
      exact absurd (clean_of_whole _) unclean

end CrashCourse.WriteAhead
