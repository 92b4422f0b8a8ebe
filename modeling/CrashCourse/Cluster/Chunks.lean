import CrashCourse.Cluster.Ccsn
import CrashCourse.Core.Spans

/-!
The two writers of the checkpoint format agree; the writer in chunks finds each record by
its number.
-/

namespace CrashCourse.Cluster
open CrashCourse.Core CrashCourse.Raft

def ccsnBodies (snapshot : Checkpoint) (membership : Bytes) : List (UInt8 × Bytes) :=
  (1, membership) :: (2, snapshot.clusterPolicy.encode) ::
    (snapshot.leadershipTransfer.toList.map (fun transfer => (6, Checkpoint.transferBody transfer))
      ++ snapshot.kv.entries.map (fun entry => (3, Checkpoint.entryBody entry))
      ++ snapshot.sessions.records.toList.map (fun entry => (4, Checkpoint.recordBody entry.1 entry.2))
      ++ snapshot.sessions.tombstones.toList.map fun entry => (5, Checkpoint.tombstoneBody entry.1 entry.2))

def Framed (bodies : List (UInt8 × Bytes)) : Prop := ∀ part ∈ bodies, part.2.length < u32Limit

def framed (bodies : List (UInt8 × Bytes)) : List Bytes := bodies.map fun part => Checkpoint.recordFrame part.1 part.2

def Writes (written : Except SnapshotCodecError (List Bytes)) (valid : Prop) (bodies : List (UInt8 × Bytes)) : Prop :=
  ∀ records, written = .ok records ↔ valid ∧ Framed bodies ∧ records = framed bodies

theorem ccsnRecord_ok_iff {tag : UInt8} {body record : Bytes} :
    ccsnRecord tag body = .ok record ↔ body.length < u32Limit ∧ record = Checkpoint.recordFrame tag body := by
  unfold ccsnRecord
  split
  next fits => simp [fits, eq_comm]
  next long => simp [long]

namespace Writes
variable {written : Except SnapshotCodecError (List Bytes)} {valid valid' : Prop} {bodies bodies' : List (UInt8 × Bytes)}

theorem nil (holds : valid) : Writes (.ok []) valid [] := by
  intro records
  simp [holds, Framed, framed, eq_comm]

theorem refuse {error : SnapshotCodecError} (fails : ¬ valid) : Writes (.error error) valid bodies := by
  intro records
  simp [fails]

theorem cons {tag : UInt8} {body : Bytes} (rest : Writes written valid bodies) : Writes (do
      let record ← ccsnRecord tag body
      return record :: (← written)) valid ((tag, body) :: bodies) := by
  intro records
  simp [ccsnRecord_ok_iff, rest _, Framed, framed]
  grind

theorem imp (writes : Writes written valid bodies) (same : valid ↔ valid') : Writes written valid' bodies :=
  fun records => (writes records).trans (and_congr_left' same)

end Writes

section Loops
variable (snapshot : Checkpoint)

theorem encodeTransfer_writes (transfer : Option LeadershipTransfer) :
    Writes (encodeTransfer snapshot transfer) (transfer.all snapshot.transferIsValid)
      (transfer.toList.map fun transfer => (6, Checkpoint.transferBody transfer)) := by
  cases transfer with
  | none => exact .nil rfl
  | some transfer =>
    rw [encodeTransfer]
    split
    next invalid => exact .refuse (by simpa using invalid)
    next valid => exact Writes.cons (.nil (by simpa using valid))

theorem encodeEntries_writes (previous : Option Bytes) (entries : List LogicalKvEntry) :
    Writes (encodeEntries snapshot previous entries) (entriesAreValid snapshot previous entries)
      (entries.map fun entry => (3, Checkpoint.entryBody entry)) := by
  induction entries generalizing previous with
  | nil => exact .nil rfl
  | cons entry rest ih =>
    unfold encodeEntries entriesAreValid
    split
    next invalid => exact .refuse fun valid => by simp_all
    next valid => exact (Writes.cons (ih (some entry.key))).imp (by simp at valid; simp [valid])

theorem encodeSessions_writes (total : Nat) (records : List (SessionKey × SessionRecord)) :
    Writes (encodeSessions snapshot total records) (snapshot.validateRecords records total = .ok ())
      (records.map fun entry => (4, Checkpoint.recordBody entry.1 entry.2)) := by
  induction records generalizing total with
  | nil => exact .nil rfl
  | cons entry rest ih =>
    unfold encodeSessions Checkpoint.validateRecords
    dsimp only
    split
    next => exact .refuse (by simp)
    next =>
      split
      next => exact .refuse (by simp)
      next => exact Writes.cons (ih _)

theorem encodeTombstones_writes (tombstones : List (SessionKey × SessionTombstone)) :
    Writes (encodeTombstones snapshot tombstones)
      (tombstones.all fun entry => snapshot.tombstoneIsValid entry.1 entry.2)
      (tombstones.map fun entry => (5, Checkpoint.tombstoneBody entry.1 entry.2)) := by
  induction tombstones with
  | nil => exact .nil rfl
  | cons entry rest ih =>
    unfold encodeTombstones
    split
    next invalid => exact .refuse (by simp at invalid; simp [invalid])
    next valid => exact (Writes.cons ih).imp (by simp at valid; simp [valid])

end Loops

variable {snapshot : Checkpoint} {bodies : List (UInt8 × Bytes)} {part : UInt8 × Bytes}

theorem validate_ok_iff : validateCcsnEncodeSnapshot snapshot = .ok () ↔
    validateBase snapshot = .ok () ∧ snapshot.leadershipTransfer.all snapshot.transferIsValid ∧
      entriesAreValid snapshot none snapshot.kv.entries ∧
      snapshot.validateRecords snapshot.sessions.records.toList 0 = .ok () ∧
      snapshot.sessions.tombstones.toList.all fun entry => snapshot.tombstoneIsValid entry.1 entry.2 := by
  simp [validateCcsnEncodeSnapshot]

@[simp] theorem framed_cons : framed (part :: bodies) = Checkpoint.recordFrame part.1 part.2 :: framed bodies := rfl

theorem Framed.append_iff {bodies' : List (UInt8 × Bytes)} :
    Framed (bodies ++ bodies') ↔ Framed bodies ∧ Framed bodies' := List.forall_mem_append

theorem Framed.cons_iff : Framed (part :: bodies) ↔ part.2.length < u32Limit ∧ Framed bodies := List.forall_mem_cons

theorem encodeRecords_ok_iff {records : List Bytes} :
    encodeRecords snapshot = .ok records ↔ validateCcsnEncodeSnapshot snapshot = .ok () ∧
      ∃ membership, snapshot.membership.encode = .ok membership ∧ Framed (ccsnBodies snapshot membership) ∧
        records = framed (ccsnBodies snapshot membership) := by
  simp [encodeRecords, ccsnBodies, framed, ccsnRecord_ok_iff, validate_ok_iff, Framed.cons_iff, Framed.append_iff,
    encodeTransfer_writes snapshot _ _, encodeEntries_writes snapshot _ _ _, encodeSessions_writes snapshot _ _ _,
    encodeTombstones_writes snapshot _ _]
  grind

theorem getElem?_map_append {α β : Type} {items : List α} {make : α → β} {others : List β} {place : Nat} :
    (items.map make ++ others)[place]? = (items[place]?.map make).or others[place - items.length]? := by
  cases held : items[place]? with
  | none =>
    have beyond := List.getElem?_eq_none_iff.mp held
    rw [List.getElem?_append_right (by simpa using beyond), List.length_map]
    rfl
  | some item =>
    have within := (List.getElem?_eq_some_iff.mp held).1
    rw [List.getElem?_append_left (by simpa using within), List.getElem?_map, held]
    rfl

theorem ccsnRecordAfterLeading_eq {place : Nat}
    (held : (snapshot.kv.entries.map (fun entry => ((3 : UInt8), Checkpoint.entryBody entry)) ++
      (snapshot.sessions.records.toList.map (fun entry => ((4 : UInt8), Checkpoint.recordBody entry.1 entry.2)) ++
        snapshot.sessions.tombstones.toList.map fun entry =>
          ((5 : UInt8), Checkpoint.tombstoneBody entry.1 entry.2)))[place]? = some part) :
    ccsnRecordAfterLeading snapshot place = ccsnRecord part.1 part.2 := by
  simp only [getElem?_map_append, List.getElem?_map, Std.ExtTreeMap.length_toList] at held
  unfold ccsnRecordAfterLeading
  grind

theorem ccsnRecordByOrdinal_eq {membership : Bytes} (image : snapshot.membership.encode = .ok membership)
    {ordinal : Nat} (place : (ccsnBodies snapshot membership)[ordinal]? = some part) :
    ccsnRecordByOrdinal snapshot ordinal = ccsnRecord part.1 part.2 := by
  unfold ccsnRecordByOrdinal
  simp only [ccsnBodies, List.append_assoc] at place
  obtain ⟨tag, body⟩ := part
  rcases ordinal with _ | _ | ordinal
  · simp_all
  · simp_all
  · cases transfer : snapshot.leadershipTransfer with
    | none => simpa [transfer] using ccsnRecordAfterLeading_eq (by simpa [transfer] using place)
    | some transfer' =>
      cases ordinal with
      | zero => simp_all
      | succ ordinal => simpa [transfer] using ccsnRecordAfterLeading_eq (by simpa [transfer] using place)

theorem crcUpdate_append (crc : BitVec 32) (left right : Bytes) :
    crcUpdate crc (left ++ right) = crcUpdate (crcUpdate crc left) right := List.foldl_append

theorem ccsnBodies_length (snapshot : Checkpoint) (membership : Bytes) :
    (ccsnBodies snapshot membership).length = 2 + snapshot.leadershipTransfer.toList.length
      + snapshot.kv.entries.length + snapshot.sessions.records.size + snapshot.sessions.tombstones.size := by
  simp [ccsnBodies, Std.ExtTreeMap.length_toList]
  omega

section Passes
variable {snapshot : Checkpoint} {membership : Bytes}

open CcsnStreamEncoder in
theorem surveyRecords_ok_iff (image : snapshot.membership.encode = .ok membership) {left start length : Nat}
    (ends : start + left = (ccsnBodies snapshot membership).length) (short : length ≤ u64Max) {crc : BitVec 32}
    {result : BitVec 32 × Nat} : surveyRecords snapshot (List.range' start left) crc length = .ok result ↔
      Framed ((ccsnBodies snapshot membership).drop start) ∧
      length + (framed ((ccsnBodies snapshot membership).drop start)).flatten.length ≤ u64Max ∧
      result = (crcUpdate crc (framed ((ccsnBodies snapshot membership).drop start)).flatten,
        length + (framed ((ccsnBodies snapshot membership).drop start)).flatten.length) := by
  induction left generalizing start length crc with
  | zero =>
    rw [List.drop_eq_nil_of_le (by omega)]
    simp [surveyRecords, Framed, framed, crcUpdate, short, eq_comm]
  | succ left ih =>
    have within : start < (ccsnBodies snapshot membership).length := by omega
    have here := ccsnRecordByOrdinal_eq image (List.getElem?_eq_getElem within)
    rw [List.drop_eq_getElem_cons within, List.range'_succ, surveyRecords, here, Framed.cons_iff]
    generalize (ccsnBodies snapshot membership)[start] = part
    simp [ccsnRecord_ok_iff, crcUpdate_append, ← Nat.add_assoc, -List.length_flatten]
    grind

open CcsnStreamEncoder in
theorem sumRecords_ok (image : snapshot.membership.encode = .ok membership) {left start : Nat}
    (ends : start + left = (ccsnBodies snapshot membership).length) (crc : BitVec 32)
    (fits : Framed ((ccsnBodies snapshot membership).drop start)) : sumRecords snapshot (List.range' start left) crc =
      .ok (crcUpdate crc (framed ((ccsnBodies snapshot membership).drop start)).flatten) := by
  induction left generalizing start crc with
  | zero =>
    rw [List.drop_eq_nil_of_le (by omega)]
    rfl
  | succ left ih =>
    have within : start < (ccsnBodies snapshot membership).length := by omega
    have here := ccsnRecordByOrdinal_eq image (List.getElem?_eq_getElem within)
    rw [List.drop_eq_getElem_cons within, Framed.cons_iff] at fits
    rw [List.drop_eq_getElem_cons within, List.range'_succ, sumRecords, here, ccsnRecord_ok_iff.mpr ⟨fits.1, rfl⟩]
    refine (ih (by omega) _ fits.2).trans ?_
    rw [← crcUpdate_append]
    rfl

end Passes

def ccsnOutput (snapshot : Checkpoint) (membership : Bytes) : Bytes :=
  ccsnHeader snapshot (ccsnBodies snapshot membership).length ++ (framed (ccsnBodies snapshot membership)).flatten

def ccsnTotalLen (snapshot : Checkpoint) (membership : Bytes) : Nat :=
  Checkpoint.headerLen + (framed (ccsnBodies snapshot membership)).flatten.length + Checkpoint.footerLen

def ccsnRecordsCrc (snapshot : Checkpoint) (membership : Bytes) : BitVec 32 :=
  crc32c (framed (ccsnBodies snapshot membership)).flatten

def ccsnSum (snapshot : Checkpoint) (membership : Bytes) : BitVec 32 :=
  crc32c (ccsnOutput snapshot membership ++
    ccsnFooter (ccsnTotalLen snapshot membership) (ccsnRecordsCrc snapshot membership) 0)

def ccsnSealed (snapshot : Checkpoint) (membership : Bytes) : Bytes :=
  ccsnFooter (ccsnTotalLen snapshot membership) (ccsnRecordsCrc snapshot membership) (ccsnSum snapshot membership)

structure Writable (snapshot : Checkpoint) (membership : Bytes) : Prop where
  valid : validateCcsnEncodeSnapshot snapshot = .ok ()
  image : snapshot.membership.encode = .ok membership
  framed : Framed (ccsnBodies snapshot membership)
  counted : (ccsnBodies snapshot membership).length ≤ u64Max
  short : ccsnTotalLen snapshot membership ≤ u64Max

section File
variable {snapshot : Checkpoint}

theorem ccsnHeader_length (sized : snapshot.clusterId.length = 16) (count : Nat) :
    (ccsnHeader snapshot count).length = Checkpoint.headerLen := by
  simp [ccsnHeader, sealRecord, sized, Checkpoint.headerLen]

theorem ccsnFooter_length (totalLen : Nat) (recordsCrc fileCrc : BitVec 32) :
    (ccsnFooter totalLen recordsCrc fileCrc).length = Checkpoint.footerLen := by
  simp [ccsnFooter, Checkpoint.footerLen]

theorem ccsnOutput_length (sized : snapshot.clusterId.length = 16) (membership : Bytes) :
    (ccsnOutput snapshot membership).length + Checkpoint.footerLen = ccsnTotalLen snapshot membership := by
  rw [ccsnOutput, List.length_append, ccsnHeader_length sized, ccsnTotalLen]

theorem ccsnOutput_drop (sized : snapshot.clusterId.length = 16) (membership : Bytes) :
    (ccsnOutput snapshot membership).drop Checkpoint.headerLen =
      (framed (ccsnBodies snapshot membership)).flatten := by
  rw [ccsnOutput, ← ccsnHeader_length sized (ccsnBodies snapshot membership).length, List.drop_left]

theorem encodeCcsn_ok_iff (sized : snapshot.clusterId.length = 16) {bytes : Bytes} :
    encodeCcsn snapshot = .ok bytes ↔ ∃ membership, Writable snapshot membership ∧
      bytes = ccsnOutput snapshot membership ++ ccsnSealed snapshot membership := by
  have whole : ∀ membership, ccsnHeader snapshot (framed (ccsnBodies snapshot membership)).length
      ++ (framed (ccsnBodies snapshot membership)).flatten = ccsnOutput snapshot membership := by
    intro membership
    rw [framed, List.length_map, ccsnOutput, framed]
  unfold encodeCcsn
  simp only [bind_ok_iff, encodeRecords_ok_iff, require_ok_iff, decide_eq_true_eq]
  constructor
  · rintro ⟨_, ⟨valid, membership, image, fits, rfl⟩, ⟨⟩, counted, ⟨⟩, short, same⟩
    rw [whole, ccsnOutput_length sized] at short same
    rw [framed, List.length_map] at counted
    rw [ccsnOutput_drop sized] at same
    exact ⟨membership, ⟨valid, image, fits, counted, short⟩, (Except.ok.inj same).symm⟩
  · rintro ⟨membership, ⟨valid, image, fits, counted, short⟩, rfl⟩
    refine ⟨_, ⟨valid, membership, image, fits, rfl⟩, (), ?_, (), ?_, ?_⟩
    · rwa [framed, List.length_map]
    · rwa [whole, ccsnOutput_length sized]
    · rw [whole, ccsnOutput_length sized, ccsnOutput_drop sized]
      rfl

def ccsnFresh (snapshot : Checkpoint) (membership : Bytes) : CcsnStreamEncoder where
  snapshot
  header := ccsnHeader snapshot (ccsnBodies snapshot membership).length
  footer := ccsnSealed snapshot membership
  recordCount := (ccsnBodies snapshot membership).length
  nextRecord := 0
  current := none
  currentOffset := 0
  done := false
  totalLen := ccsnTotalLen snapshot membership
  fileCrc := ccsnSum snapshot membership

theorem countRecords_ok_iff (membership : Bytes) {count : Nat} : CcsnStreamEncoder.countRecords snapshot = .ok count ↔
      (ccsnBodies snapshot membership).length ≤ u64Max ∧ count = (ccsnBodies snapshot membership).length := by
  rw [ccsnBodies_length]
  simp [CcsnStreamEncoder.countRecords]

theorem exists_image (valid : validateCcsnEncodeSnapshot snapshot = .ok ()) :
    ∃ membership, snapshot.membership.encode = .ok membership := by
  have base := (validate_ok_iff.mp valid).1
  simp only [validateBase, bind_ok_iff, require_ok_iff, isOk_iff] at base
  obtain ⟨⟨⟩, _, ⟨⟩, ⟨⟨⟩, members⟩, _⟩ := base
  simp [MembershipState.encode, members]

section Whole
variable {membership : Bytes} (image : snapshot.membership.encode = .ok membership)
include image

theorem survey_ok_iff {result : BitVec 32 × Nat} :
    CcsnStreamEncoder.surveyRecords snapshot (List.range (ccsnBodies snapshot membership).length)
        (BitVec.allOnes 32) 0 = .ok result ↔
      Framed (ccsnBodies snapshot membership) ∧ (framed (ccsnBodies snapshot membership)).flatten.length ≤ u64Max ∧
      result = (crcUpdate (BitVec.allOnes 32) (framed (ccsnBodies snapshot membership)).flatten,
        (framed (ccsnBodies snapshot membership)).flatten.length) := by
  rw [List.range_eq_range', surveyRecords_ok_iff image (Nat.zero_add _) (Nat.zero_le _)]
  simp only [List.drop_zero, Nat.zero_add]

theorem sum_ok (fits : Framed (ccsnBodies snapshot membership)) (crc : BitVec 32) :
    CcsnStreamEncoder.sumRecords snapshot (List.range (ccsnBodies snapshot membership).length) crc =
      .ok (crcUpdate crc (framed (ccsnBodies snapshot membership)).flatten) := by
  rw [List.range_eq_range']
  exact sumRecords_ok image (Nat.zero_add _) crc fits

end Whole

theorem ccsnSum_eq (membership : Bytes) : ccsnSum snapshot membership =
    ~~~ crcUpdate (crcUpdate (crcUpdate (BitVec.allOnes 32)
        (ccsnHeader snapshot (ccsnBodies snapshot membership).length))
        (framed (ccsnBodies snapshot membership)).flatten)
      (ccsnFooter (ccsnTotalLen snapshot membership) (ccsnRecordsCrc snapshot membership) 0) := by
  rw [ccsnSum, crc32c, ccsnOutput, crcUpdate_append, crcUpdate_append]

theorem new_ok_iff {encoder : CcsnStreamEncoder} : CcsnStreamEncoder.new snapshot = .ok encoder ↔
      ∃ membership, Writable snapshot membership ∧ encoder = ccsnFresh snapshot membership := by
  unfold CcsnStreamEncoder.new
  simp only [bind_ok_iff, require_ok_iff, decide_eq_true_eq]
  constructor
  · rintro ⟨⟨⟩, valid, count, counted, ⟨recordsCrc, recordsLen⟩, surveyed, ⟨⟩, short, fileCrc, summed, same⟩
    obtain ⟨membership, image⟩ := exists_image valid
    obtain ⟨few, rfl⟩ := (countRecords_ok_iff membership).mp counted
    obtain ⟨fits, _, pair⟩ := (survey_ok_iff image).mp surveyed
    obtain ⟨rfl, rfl⟩ := Prod.mk.inj pair
    rw [sum_ok image fits] at summed
    obtain rfl := Except.ok.inj summed
    refine ⟨membership, ⟨valid, image, fits, few, short⟩, (Except.ok.inj same).symm.trans ?_⟩
    rw [ccsnFresh, ccsnSealed, ccsnSum_eq]
    rfl
  · rintro ⟨membership, ⟨valid, image, fits, few, short⟩, rfl⟩
    have long : (framed (ccsnBodies snapshot membership)).flatten.length ≤ u64Max := by
      unfold ccsnTotalLen at short
      omega
    refine ⟨(), valid, _, (countRecords_ok_iff membership).mpr ⟨few, rfl⟩, _, (survey_ok_iff image).mpr ⟨fits, long, rfl⟩, (),
      short, _, sum_ok image fits _, congrArg Except.ok ?_⟩
    rw [ccsnFresh, ccsnSealed, ccsnSum_eq]
    rfl

end File

def ccsnPieces (snapshot : Checkpoint) (membership : Bytes) : List Bytes :=
  ccsnHeader snapshot (ccsnBodies snapshot membership).length ::
    (framed (ccsnBodies snapshot membership) ++ [ccsnSealed snapshot membership])

namespace CcsnStreamEncoder

def remaining (membership : Bytes) (encoder : CcsnStreamEncoder) : Bytes :=
  encoder.current.elim [] (List.drop encoder.currentOffset)
    ++ ((ccsnPieces encoder.snapshot membership).drop encoder.nextRecord).flatten

structure Goes (membership : Bytes) (encoder : CcsnStreamEncoder) : Prop where
  image : encoder.snapshot.membership.encode = .ok membership
  fits : Framed (ccsnBodies encoder.snapshot membership)
  header : encoder.header = ccsnHeader encoder.snapshot (ccsnBodies encoder.snapshot membership).length
  footer : encoder.footer = ccsnSealed encoder.snapshot membership
  count : encoder.recordCount = (ccsnBodies encoder.snapshot membership).length
  inside : ∀ piece ∈ encoder.current, encoder.currentOffset < piece.length
  ended : encoder.done → encoder.remaining membership = []

section
variable {membership : Bytes} {encoder : CcsnStreamEncoder}

theorem ccsnPieces_length (snapshot : Checkpoint) :
    (ccsnPieces snapshot membership).length = (ccsnBodies snapshot membership).length + 2 := by
  simp [ccsnPieces, framed]

theorem pos_length_of_mem_ccsnPieces {snapshot : Checkpoint} {piece : Bytes}
    (member : piece ∈ ccsnPieces snapshot membership) : 0 < piece.length := by
  simp only [ccsnPieces, framed, List.mem_cons, List.mem_append, List.mem_map, List.not_mem_nil, or_false] at member
  rcases member with rfl | ⟨part, _, rfl⟩ | rfl
  · simp [ccsnHeader, sealRecord]
  · simp [Checkpoint.recordFrame]
  · rw [ccsnSealed, ccsnFooter_length]
    decide

theorem loadPiece_next (goes : Goes membership encoder) (idle : encoder.current = none) {piece : Bytes}
    (next : (ccsnPieces encoder.snapshot membership)[encoder.nextRecord]? = some piece) :
    encoder.loadPiece = .ok { encoder with
      nextRecord := encoder.nextRecord + 1
      current := some piece
      currentOffset := 0 } := by
  unfold loadPiece
  rw [idle]
  dsimp only
  cases position : encoder.nextRecord with
  | zero =>
    rw [position] at next
    obtain rfl := Option.some.inj next
    rw [if_pos rfl, goes.header]
  | succ ordinal =>
    rw [if_neg (Nat.succ_ne_zero _)]
    rw [position, ccsnPieces, List.getElem?_cons_succ] at next
    rcases Nat.lt_or_ge ordinal (ccsnBodies encoder.snapshot membership).length with record | last
    · -- one of the records, which was found to fit before
      have held := List.getElem?_eq_getElem record
      rw [List.getElem?_append_left (by simpa [framed] using record), framed, List.getElem?_map, held] at next
      obtain rfl := Option.some.inj next
      have small := goes.fits _ (List.getElem_mem record)
      rw [if_pos (by rw [goes.count]; omega), Nat.add_sub_cancel, ccsnRecordByOrdinal_eq goes.image held,
        ccsnRecord_ok_iff.mpr ⟨small, rfl⟩]
    · -- the footer is the last piece
      rw [List.getElem?_append_right (by simpa [framed] using last)] at next
      obtain ⟨place, rfl⟩ := List.getElem?_eq_some_iff.mp next
      simp only [framed, List.length_map, List.length_cons, List.length_nil] at place
      rw [if_neg (by rw [goes.count]; omega), if_pos (by rw [goes.count]; omega), goes.footer]
      simp

theorem loadPiece_end (goes : Goes membership encoder) (idle : encoder.current = none)
    (none_left : (ccsnPieces encoder.snapshot membership)[encoder.nextRecord]? = none) :
    encoder.loadPiece = .ok { encoder with done := true, currentOffset := 0 } := by
  rw [List.getElem?_eq_none_iff, ccsnPieces_length] at none_left
  have count := goes.count
  grind [loadPiece]

theorem loadPiece_spec (goes : Goes membership encoder) : ∃ encoder', encoder.loadPiece = .ok encoder' ∧
    Goes membership encoder' ∧ encoder'.remaining membership = encoder.remaining membership ∧
    (encoder'.current = none → encoder.remaining membership = []) := by
  cases held : encoder.current with
  | some piece =>
    refine ⟨encoder, ?_, goes, rfl, ?_⟩
    · rw [loadPiece, held]
    · rw [held]
      rintro ⟨⟩
  | none =>
    cases next : (ccsnPieces encoder.snapshot membership)[encoder.nextRecord]? with
    | some piece =>
      have place := (List.getElem?_eq_some_iff.mp next).1
      have same : ((ccsnPieces encoder.snapshot membership).drop encoder.nextRecord).flatten =
          piece ++ ((ccsnPieces encoder.snapshot membership).drop (encoder.nextRecord + 1)).flatten := by
        rw [List.drop_eq_getElem_cons place, List.flatten_cons, (List.getElem?_eq_some_iff.mp next).2]
      have left : encoder.remaining membership =
          piece ++ ((ccsnPieces encoder.snapshot membership).drop (encoder.nextRecord + 1)).flatten := by
        rw [remaining, held, same]
        rfl
      refine ⟨_, loadPiece_next goes held next, ?_, left.symm, ?_⟩
      · refine { goes with inside := ?_, ended := fun over' => left.symm.trans (goes.ended over') }
        rintro _ ⟨⟩
        exact pos_length_of_mem_ccsnPieces (List.mem_of_getElem? next)
      · rintro ⟨⟩
    | none =>
      have left : encoder.remaining membership = [] := by
        rw [remaining, held, List.drop_eq_nil_of_le (List.getElem?_eq_none_iff.mp next)]
        rfl
      have same : remaining membership { encoder with done := true, currentOffset := 0 } = [] := by
        rw [← left, remaining, remaining, held]
        rfl
      refine ⟨_, loadPiece_end goes held next, ?_, same.trans left.symm, fun _ => left⟩
      exact { goes with inside := by rw [held]; rintro _ ⟨⟩, ended := fun _ => same }

def skip (encoder : CcsnStreamEncoder) (piece : Bytes) (wanted : Nat) : CcsnStreamEncoder :=
  { encoder with
    current := if encoder.currentOffset + wanted = piece.length then none else some piece
    currentOffset := encoder.currentOffset + wanted }

section Skip
variable (goes : Goes membership encoder) {piece : Bytes} (held : encoder.current = some piece) {wanted : Nat}
  (inside : wanted ≤ piece.length - encoder.currentOffset)
include held

theorem remaining_of_loaded : encoder.remaining membership = piece.drop encoder.currentOffset
    ++ ((ccsnPieces encoder.snapshot membership).drop encoder.nextRecord).flatten := by
  rw [remaining, held]
  rfl

include inside

theorem take_loaded :
    (piece.drop encoder.currentOffset).take wanted = (encoder.remaining membership).take wanted := by
  rw [remaining_of_loaded held, List.take_append_of_le_length (by simpa using inside)]

theorem remaining_skip :
    (encoder.skip piece wanted).remaining membership = (encoder.remaining membership).drop wanted := by
  rw [remaining_of_loaded held, List.drop_append_of_le_length (by simpa using inside), List.drop_drop, remaining, skip]
  congr 1
  dsimp only
  split
  next full => rw [full, List.drop_length, Option.elim_none]
  next => rfl

include goes

theorem Goes.skip : Goes membership (encoder.skip piece wanted) := by
  have within := goes.inside piece held
  refine { goes with inside := ?_, ended := fun over' => ?_ }
  · grind [CcsnStreamEncoder.skip]
  · rw [remaining_skip held inside, goes.ended over', List.drop_nil]

end Skip

theorem fill_spec {maxBytes : Nat} (fuel : Nat) (goes : Goes membership encoder) (output : Bytes)
    (room : output.length ≤ maxBytes) (enough : maxBytes < output.length + fuel) :
    ∃ encoder', fill maxBytes fuel encoder output =
        .ok (output ++ (encoder.remaining membership).take (maxBytes - output.length), encoder') ∧
      Goes membership encoder' ∧
      encoder'.remaining membership = (encoder.remaining membership).drop (maxBytes - output.length) := by
  induction fuel generalizing encoder output with
  | zero => omega
  | succ fuel ih =>
    unfold fill
    rcases Nat.lt_or_ge output.length maxBytes with space | full
    · obtain ⟨loaded, load, goes', same, none_left⟩ := loadPiece_spec goes
      rw [if_neg (by omega), load, ← same]
      rw [← same] at none_left
      dsimp only [bind, Except.bind]
      cases held : loaded.current with
      | none =>
        refine ⟨loaded, ?_, goes', ?_⟩
        · rw [none_left held, List.take_nil, List.append_nil]
          rfl
        · rw [none_left held, List.drop_nil]
      | some piece =>
        have within := goes'.inside piece held
        dsimp only
        generalize chosen : min (maxBytes - output.length) (piece.length - loaded.currentOffset) = wanted
        have inside : wanted ≤ piece.length - loaded.currentOffset := by omega
        have longer : (output ++ (piece.drop loaded.currentOffset).take wanted).length = output.length + wanted := by
          rw [List.length_append, List.length_take, List.length_drop, Nat.min_eq_left inside]
        obtain ⟨encoder', filled, goes'', left⟩ :=
          ih (goes'.skip held inside) _ (by rw [longer]; omega) (by rw [longer]; omega)
        refine ⟨encoder', filled.trans ?_, goes'', left.trans ?_⟩
        · rw [longer, remaining_skip held inside, take_loaded held inside, List.append_assoc, ← List.take_add]
          congr 4
          omega
        · rw [longer, remaining_skip held inside, List.drop_drop]
          congr 1
          omega
    · refine ⟨encoder, ?_, goes, ?_⟩
      · rw [if_pos full, Nat.sub_eq_zero_of_le full, List.take_zero, List.append_nil]
      · rw [Nat.sub_eq_zero_of_le full, List.drop_zero]

theorem nextChunk_spec (goes : Goes membership encoder) {maxBytes : Nat} (positive : 0 < maxBytes) :
    ∃ chunk encoder', encoder.nextChunk maxBytes = .ok (chunk, encoder') ∧ Goes membership encoder' ∧
      chunk.toList.flatten = (encoder.remaining membership).take maxBytes ∧
      (encoder.remaining membership = [] → chunk = none) ∧
      encoder'.remaining membership = (encoder.remaining membership).drop maxBytes := by
  unfold nextChunk
  rw [if_neg (by omega)]
  cases finished : encoder.done with
  | true =>
    have left := goes.ended finished
    refine ⟨none, encoder, if_pos rfl, goes, ?_, fun _ => rfl, ?_⟩
    · rw [left, List.take_nil]
      rfl
    · rw [left, List.drop_nil]
  | false =>
    obtain ⟨encoder', filled, goes', left⟩ :=
      fill_spec (maxBytes + 1) goes [] (Nat.zero_le maxBytes) (by simp)
    rw [List.length_nil, Nat.sub_zero] at filled left
    rw [if_neg Bool.false_ne_true, filled]
    refine ⟨_, encoder', rfl, goes', ?_, ?_, left⟩
    · rw [List.nil_append]
      cases (encoder.remaining membership).take maxBytes <;> simp
    · intro nothing
      rw [nothing, List.take_nil]
      rfl

theorem chunks_spec (goes : Goes membership encoder) {sizes : List Nat} (positive : ∀ size ∈ sizes, 0 < size) :
    ∃ parts encoder', encoder.chunks sizes = .ok (parts, encoder') ∧ Goes membership encoder' ∧
      parts.flatten = (encoder.remaining membership).take sizes.sum ∧
      encoder'.remaining membership = (encoder.remaining membership).drop sizes.sum := by
  induction sizes generalizing encoder with
  | nil => exact ⟨[], encoder, rfl, goes, by simp, by simp⟩
  | cons size rest ih =>
    obtain ⟨chunk, middle, first, goes', taken, _, left⟩ := nextChunk_spec goes (positive size List.mem_cons_self)
    obtain ⟨parts, last, others, goes'', taken', left'⟩ :=
      ih goes' fun size member => positive size (List.mem_cons_of_mem _ member)
    refine ⟨chunk.toList ++ parts, last, ?_, goes'', ?_, ?_⟩
    · rw [chunks, first]
      dsimp only [bind, Except.bind]
      rw [others]
      rfl
    · rw [List.flatten_append, taken, taken', left, List.sum_cons, List.take_add]
    · rw [left', left, List.drop_drop, List.sum_cons]

end

theorem remaining_ccsnFresh (snapshot : Checkpoint) (membership : Bytes) :
    (ccsnFresh snapshot membership).remaining membership =
      ccsnOutput snapshot membership ++ ccsnSealed snapshot membership := by
  change [] ++ ((ccsnPieces snapshot membership).drop 0).flatten = _
  rw [List.nil_append, List.drop_zero, ccsnPieces, List.flatten_cons, List.flatten_append, List.flatten_singleton,
    ccsnOutput, List.append_assoc]

theorem goes_ccsnFresh {snapshot : Checkpoint} {membership : Bytes} (writable : Writable snapshot membership) :
    Goes membership (ccsnFresh snapshot membership) where
  image := writable.image
  fits := writable.framed
  header := rfl
  footer := rfl
  count := rfl
  inside := fun _ held => absurd held (Option.not_mem_none _)
  ended := fun finished => absurd finished Bool.false_ne_true

end CcsnStreamEncoder

theorem ccsnFileCrc_sealed {output : Bytes} {totalLen : Nat} {recordsCrc fileCrc : BitVec 32}
    (long : Checkpoint.headerLen ≤ output.length) (total : output.length + Checkpoint.footerLen = totalLen)
    (short : totalLen ≤ u64Max) :
    ccsnFileCrc (output ++ ccsnFooter totalLen recordsCrc fileCrc) = .ok fileCrc.toNat := by
  have whole : (output ++ ccsnFooter totalLen recordsCrc fileCrc).length = totalLen := by
    rw [List.length_append, ccsnFooter_length, total]
  have tail : (output ++ ccsnFooter totalLen recordsCrc fileCrc).drop (totalLen - Checkpoint.footerLen) =
      ccsnFooter totalLen recordsCrc fileCrc := by
    rw [← total, Nat.add_sub_cancel, List.drop_left]
  unfold ccsnFileCrc
  rw [whole, if_neg (by omega)]
  dsimp only
  rw [tail]
  have length : leNat (Enc.u64 totalLen) = totalLen := leNat_leBytes_of_lt (by unfold u64Max at short; omega)
  have sum : leNat (Enc.u32 fileCrc.toNat) = fileCrc.toNat := leNat_leBytes_of_lt fileCrc.isLt
  have mark : leNat (Enc.u32 ccsnEndMagic) = ccsnEndMagic := by decide
  simp only [ccsnFooter, List.append_assoc, List.take_append, List.drop_append, Enc.u64_length, Enc.u32_length]
  simpa [List.drop_eq_nil_of_le, List.take_of_length_le, length, sum] using mark

/-- The writer in chunks starts whenever the whole file can be written, announces its
length and checksum, and its chunks are that file. -/
theorem chunks_eq_file (snapshot : Checkpoint) (sized : snapshot.clusterId.length = 16) :
    ((CcsnStreamEncoder.new snapshot).isOk = (encodeCcsn snapshot).isOk) ∧
    ∀ bytes encoder, encodeCcsn snapshot = .ok bytes → CcsnStreamEncoder.new snapshot = .ok encoder →
      encoder.totalLen = bytes.length ∧ ccsnFileCrc bytes = .ok encoder.fileCrc.toNat ∧
      ∀ sizes : List Nat, (∀ size ∈ sizes, 0 < size) →
        ∃ parts encoder', encoder.chunks sizes = .ok (parts, encoder') ∧ parts.flatten = bytes.take sizes.sum ∧
          (bytes.length ≤ sizes.sum → parts.flatten = bytes ∧
            ∀ size, 0 < size → ∃ encoder'', encoder'.nextChunk size = .ok (none, encoder'')) := by
  constructor
  · rw [Bool.eq_iff_iff, isOk_iff, isOk_iff]
    simp only [new_ok_iff, encodeCcsn_ok_iff sized]
    constructor
    · rintro ⟨_, membership, writable, _⟩
      exact ⟨_, membership, writable, rfl⟩
    · rintro ⟨_, membership, writable, _⟩
      exact ⟨_, membership, writable, rfl⟩
  · intro bytes encoder whole started
    obtain ⟨membership, writable, rfl⟩ := new_ok_iff.mp started
    obtain ⟨membership', writable', rfl⟩ := (encodeCcsn_ok_iff sized).mp whole
    obtain rfl : membership = membership' := Except.ok.inj (writable.image.symm.trans writable'.image)
    have total := ccsnOutput_length sized membership
    have long : Checkpoint.headerLen ≤ (ccsnOutput snapshot membership).length := by
      rw [ccsnOutput, List.length_append, ccsnHeader_length sized]
      exact Nat.le_add_right _ _
    refine ⟨?_, ccsnFileCrc_sealed long total writable.short, ?_⟩
    · rw [List.length_append, ccsnSealed, ccsnFooter_length, total]
      rfl
    · intro sizes positive
      obtain ⟨parts, encoder', cut, goes, taken, left⟩ :=
        CcsnStreamEncoder.chunks_spec (CcsnStreamEncoder.goes_ccsnFresh writable) positive
      rw [CcsnStreamEncoder.remaining_ccsnFresh] at taken left
      refine ⟨parts, encoder', cut, taken, fun enough => ⟨?_, fun size some_size => ?_⟩⟩
      · rw [taken, List.take_of_length_le enough]
      · obtain ⟨chunk, encoder'', next, _, _, stop, _⟩ := CcsnStreamEncoder.nextChunk_spec goes some_size
        have none_left : encoder'.remaining membership = [] := left.trans (List.drop_eq_nil_of_le enough)
        rw [stop none_left] at next
        exact ⟨encoder'', next⟩

def loneCheckpoint : Checkpoint where
  clusterId := List.replicate 16 1
  clusterPolicy := .default
  membership :=
    { voters := Std.ExtTreeSet.ofList [1] compare, learners := ∅, joint := none, addresses := ∅, activeFeatures := 0 }
  kv := ⟨[⟨[1], 1, [2], none⟩], 1, 1, 1, 0⟩
  sessions := .empty
  leadershipTransfer := none

theorem loneCheckpoint_chunks : ∃ bytes encoder parts encoder', encodeCcsn loneCheckpoint = .ok bytes ∧
      CcsnStreamEncoder.new loneCheckpoint = .ok encoder ∧ encoder.chunks [100, 1000] = .ok (parts, encoder') ∧
      parts.flatten = bytes.take 1100 := by
  have accepted : (encodeCcsn loneCheckpoint).isOk = true := by decide +kernel
  have sized : loneCheckpoint.clusterId.length = 16 := by decide
  obtain ⟨bytes, whole⟩ := isOk_iff.mp accepted
  obtain ⟨encoder, started⟩ := isOk_iff.mp ((chunks_eq_file _ sized).1.trans accepted)
  obtain ⟨parts, encoder', cut, same, _⟩ :=
    ((chunks_eq_file _ sized).2 bytes encoder whole started).2.2 [100, 1000] (by decide)
  exact ⟨bytes, encoder, parts, encoder', whole, started, cut, same⟩

end CrashCourse.Cluster
