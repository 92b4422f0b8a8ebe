import CrashCourse.WriteAhead.Recovery

/-!
A log under append and commit calls, and its recovery after a crash at any byte written
since the last commit.
-/

namespace CrashCourse.WriteAhead
open CrashCourse.Core

namespace Wal

theorem segmentImages_eq (wal : Wal) :
    wal.segmentImages = wal.segmentImages.dropLast ++ [⟨wal.active.sequence, wal.active.bytes⟩] := by
  have nonempty : wal.segmentImages ≠ [] := by simpa [segmentImages] using wal.opened
  have last : wal.segmentImages.getLast nonempty = ⟨wal.active.sequence, wal.active.bytes⟩ := by
    simp [segmentImages, active, List.getLast_map]
  rw [← last, List.dropLast_append_getLast]

theorem setActive_segmentImages (wal : Wal) (segment : Segment) :
    (wal.setActive segment).segmentImages = wal.segmentImages.dropLast ++ [⟨segment.sequence, segment.bytes⟩] := by
  simp [segmentImages, setActive, List.map_dropLast]

theorem padActive_ok {wal padded : Wal} {available : Nat} (done : wal.padActive available = .ok padded) :
    padded.config = wal.config ∧ padded.records = wal.records ∧
      ∃ padding, IsPadding wal.config.maxRecordSize padding ∧ padded.segmentImages =
        wal.segmentImages.dropLast ++ [⟨wal.active.sequence, wal.active.bytes ++ padding⟩] := by
  unfold padActive at done
  split at done
  · obtain rfl := Except.ok.inj done
    refine ⟨rfl, rfl, [], .zeros 0, ?_⟩
    rw [List.append_nil]
    exact wal.segmentImages_eq
  · split at done
    · obtain rfl := Except.ok.inj done
      exact ⟨rfl, rfl, _, .zeros available, wal.setActive_segmentImages _⟩
    · split at done
      · cases done
      next padding encoded =>
        obtain ⟨fits, rfl⟩ := encodeRecord_ok_iff.mp encoded
        split at done
        · cases done
        · obtain rfl := Except.ok.inj done
          exact ⟨rfl, rfl, _, .pad _ fits, wal.setActive_segmentImages _⟩

end Wal

structure Laid (wal : Wal) (front : List Filled) (last : Filled) : Prop where
  images : wal.segmentImages = (front ++ [last]).map Filled.image
  records : wal.records = (front ++ [last]).flatMap Filled.records
  numbered : Numbered 0 (front ++ [last])
  proper : ∀ filled ∈ front ++ [last], filled.Proper wal.config.maxRecordSize

namespace Laid
variable {wal next : Wal} {front : List Filled} {last : Filled}

theorem last_proper (laid : Laid wal front last) : last.Proper wal.config.maxRecordSize :=
  laid.proper last (List.mem_append_right _ (List.mem_singleton_self _))

theorem active (laid : Laid wal front last) : wal.active.sequence = last.sequence ∧ wal.active.bytes = last.bytes ∧
      wal.segmentImages.dropLast = front.map Filled.image := by
  have images := laid.images
  rw [List.map_append, List.map_singleton] at images
  have parts := wal.segmentImages_eq
  rw [images, List.dropLast_concat] at parts
  have same := List.append_cancel_left parts
  obtain ⟨sequence, bytes⟩ := SegmentImage.mk.inj (List.cons.inj same).1
  exact ⟨sequence.symm, bytes.symm, by rw [images, List.dropLast_concat]⟩

theorem place (laid : Laid wal front last) (unpadded' : last.padding = []) {kind : RecordType} {payload : Bytes}
    (fits : Fits wal.config.maxRecordSize payload) {range : LsnRange}
    (done : wal.place kind payload (frame kind payload) = some (range, next)) :
    next.config = wal.config ∧ Laid next front { last with items := last.items ++ [(kind, payload)] } := by
  obtain ⟨sequence, bytes, earlier⟩ := laid.active
  have length := last.bytes_length
  rw [unpadded', List.length_nil, add_zero] at length
  have framed : frames (last.items ++ [(kind, payload)]) = frames last.items ++ frame kind payload := by
    rw [frames_append, frames_cons, frames_nil, List.append_nil]
    rfl
  unfold Wal.place at done
  dsimp only at done
  split at done
  · cases done
  next low =>
    obtain ⟨-, rfl⟩ := Prod.mk.inj (Option.some.inj done)
    rw [bytes, length] at low
    refine ⟨rfl, ?_, ?_, ?_, ?_⟩
    · change (wal.setActive (wal.active.extend (frame kind payload))).segmentImages = _
      rw [wal.setActive_segmentImages, earlier, List.map_append]
      simp only [Segment.extend, sequence, bytes, Filled.bytes, unpadded', List.map_singleton, Filled.image, framed,
        List.append_nil, List.append_assoc]
    · change wal.records ++ [⟨⟨wal.active.sequence, wal.active.bytes.length⟩, kind, payload⟩] = _
      rw [laid.records, List.flatMap_append, List.flatMap_append, List.flatMap_singleton, List.flatMap_singleton,
        Filled.records, Filled.records, recordsFrom_append, sequence, bytes, length, List.append_assoc]
      rfl
    · have numbered := numbered_append.mp laid.numbered
      exact numbered_append.mpr ⟨numbered.1, numbered.2.1, trivial⟩
    · intro filled held
      rcases List.mem_append.mp held with earlier | same
      · exact laid.proper filled (List.mem_append_left _ earlier)
      obtain rfl := List.mem_singleton.mp same
      have proper := laid.last_proper
      refine ⟨proper.sequence, ?_, ?_, proper.padding⟩
      · intro item held
        rcases List.mem_append.mp held with before | new
        · exact proper.items item before
        · obtain rfl := List.mem_singleton.mp new
          exact fits
      · change segmentHeaderSize + (frames (last.items ++ [(kind, payload)])).length ≤ u32Max
        rw [framed, List.length_append]
        omega

theorem roll (laid : Laid wal front last) (unpadded' : last.padding = []) {available : Nat} {padded : Wal}
    (pad : wal.padActive available = .ok padded) (done : padded.rollSegment = some next) :
    next.config = wal.config ∧ ∃ padding,
      Laid next (front ++ [{ last with padding }]) ⟨last.sequence + 1, [], []⟩ := by
  obtain ⟨sequence, bytes, earlier⟩ := laid.active
  obtain ⟨config, records, padding, isPadding, images⟩ := Wal.padActive_ok pad
  have active : padded.active.sequence = last.sequence := by
    have parts := padded.segmentImages_eq
    rw [images, List.dropLast_concat] at parts
    rw [← sequence]
    exact (SegmentImage.mk.inj (List.cons.inj (List.append_cancel_left parts)).1).1.symm
  unfold Wal.rollSegment at done
  split at done
  · cases done
  next low =>
    obtain rfl := Option.some.inj done
    refine ⟨config, padding, ?_, ?_, ?_, ?_⟩
    · have rolled : (padded.segments ++ [Segment.new (padded.active.sequence + 1)]).map
          (fun segment => (⟨segment.sequence, segment.bytes⟩ : SegmentImage)) = padded.segmentImages ++
            [⟨last.sequence + 1, segmentHeader (last.sequence + 1)⟩] := by
        rw [List.map_append, active]
        rfl
      refine rolled.trans ?_
      rw [images, earlier, sequence, bytes]
      simp [Filled.image, Filled.bytes, unpadded']
    · change padded.records = _
      rw [records, laid.records]
      simp [Filled.records, recordsFrom]
    · have numbered := numbered_append.mp laid.numbered
      refine numbered_append.mpr ⟨numbered_append.mpr ⟨numbered.1, numbered.2.1, trivial⟩, ?_, trivial⟩
      have number : last.sequence = 0 + front.length := numbered.2.1
      simp [number]
    · intro filled held
      change filled.Proper padded.config.maxRecordSize
      rw [config]
      rcases List.mem_append.mp held with before | new
      · rcases List.mem_append.mp before with first | same
        · exact laid.proper filled (List.mem_append_left _ first)
        · obtain rfl := List.mem_singleton.mp same
          have proper := laid.last_proper
          exact ⟨proper.sequence, proper.items, proper.low, isPadding⟩
      · obtain rfl := List.mem_singleton.mp new
        refine ⟨?_, by simp, show segmentHeaderSize + (frames []).length ≤ u32Max by decide, .zeros 0⟩
        change last.sequence + 1 ≤ u64Max
        omega

end Laid

inductive Grows (front : List Filled) (last : Filled) : List Filled → Filled → Prop
  | refused : Grows front last front last
  | placed (item : Item) : Grows front last front { last with items := last.items ++ [item] }
  | rolled (padding : Bytes) (item : Item) :
      Grows front last (front ++ [{ last with padding }]) ⟨last.sequence + 1, [item], []⟩

variable {front front' back all : List Filled} {last last' : Filled} {keep count maxRecordSize : Nat}

theorem Grows.padding (grows : Grows front last front' last') (unpadded' : last.padding = []) :
    last'.padding = [] := by
  cases grows with
  | refused | placed item => exact unpadded'
  | rolled padding item => rfl

theorem Laid.append {wal next : Wal} (laid : Laid wal front last) (unpadded' : last.padding = []) {kind : RecordType}
    {payload : Bytes} {result : Except WalError LsnRange} (done : wal.append kind payload = some (result, next)) :
    next.config = wal.config ∧ ∃ front' last', Grows front last front' last' ∧ Laid next front' last' := by
  unfold Wal.append at done
  split at done
  · obtain ⟨-, rfl⟩ := Prod.mk.inj (Option.some.inj done)
    exact ⟨rfl, front, last, .refused, laid⟩
  next encoded isRecord =>
    obtain ⟨fits, rfl⟩ := encodeRecord_ok_iff.mp isRecord
    dsimp only at done
    split at done
    · obtain ⟨-, rfl⟩ := Prod.mk.inj (Option.some.inj done)
      exact ⟨rfl, front, last, .refused, laid⟩
    split at done
    · split at done
      · obtain ⟨-, rfl⟩ := Prod.mk.inj (Option.some.inj done)
        exact ⟨rfl, front, last, .refused, laid⟩
      next padded pad =>
        obtain ⟨rolled, roll, done⟩ := Option.bind_eq_some_iff.mp done
        obtain ⟨placed, place, done⟩ := Option.bind_eq_some_iff.mp done
        obtain ⟨-, rfl⟩ := Prod.mk.inj (Option.some.inj done)
        obtain ⟨config, padding, laid'⟩ := laid.roll unpadded' pad roll
        obtain ⟨config', placed'⟩ := laid'.place rfl (config ▸ fits) place
        exact ⟨config'.trans config, _, _, .rolled padding (kind, payload), placed'⟩
    · obtain ⟨placed, place, done⟩ := Option.bind_eq_some_iff.mp done
      obtain ⟨-, rfl⟩ := Prod.mk.inj (Option.some.inj done)
      obtain ⟨config, placed'⟩ := laid.place unpadded' fits place
      exact ⟨config, _, _, .placed (kind, payload), placed'⟩

theorem wholeRecords_mono (filled : List Filled) {keep' : Nat} (more : keep ≤ keep') :
    (wholeRecords filled keep).length ≤ (wholeRecords filled keep').length := by
  induction filled generalizing keep keep' with
  | nil => exact Nat.le_refl _
  | cons first rest ih =>
    have here := whole_mono first.items (Nat.sub_le_sub_right more segmentHeaderSize)
    have there := ih (Nat.sub_le_sub_right more first.bytes.length)
    rw [wholeRecords, wholeRecords, List.length_append, List.length_append, List.length_take, List.length_take]
    omega

theorem wholeRecords_append_mono (front : List Filled) {back' : List Filled}
    (more : ∀ keep, (wholeRecords back keep).length ≤ (wholeRecords back' keep).length) (keep : Nat) :
    (wholeRecords (front ++ back) keep).length ≤ (wholeRecords (front ++ back') keep).length := by
  induction front generalizing keep with
  | nil => exact more keep
  | cons first front ih =>
    rw [List.cons_append, List.cons_append, wholeRecords, wholeRecords, List.length_append, List.length_append]
    exact Nat.add_le_add_left (ih _) _

theorem Grows.wholeRecords (grows : Grows front last front' last') (keep : Nat) :
    (wholeRecords (front ++ [last]) keep).length ≤ (wholeRecords (front' ++ [last']) keep).length := by
  cases grows with
  | refused => exact Nat.le_refl _
  | placed item =>
    refine wholeRecords_append_mono front (fun keep => ?_) keep
    have more := whole_append last.items [item] (keep - segmentHeaderSize)
    simp only [WriteAhead.wholeRecords, List.append_nil, List.length_take, records_length, List.length_append]
    omega
  | rolled padding item =>
    rw [List.append_assoc]
    refine wholeRecords_append_mono front (fun keep => ?_) keep
    simp only [WriteAhead.wholeRecords, List.singleton_append, List.append_nil, List.length_append, List.length_take,
      records_length]
    omega

def totalBytes (images : List SegmentImage) : Nat := (images.map fun image => image.bytes.length).sum

theorem cutImages_extend (images : List SegmentImage) (image : SegmentImage) (extra : Bytes)
    (others : List SegmentImage) (within : keep ≤ totalBytes (images ++ [image])) :
    cutImages (images ++ ⟨image.sequence, image.bytes ++ extra⟩ :: others) keep =
      cutImages (images ++ [image]) keep := by
  induction images generalizing keep with
  | nil =>
    have short : keep ≤ image.bytes.length := by simpa [totalBytes] using within
    rw [List.nil_append, List.nil_append, cutImages, cutImages]
    split
    · rfl
    · rw [List.take_append_of_le_length short, Nat.sub_eq_zero_of_le (by rw [List.length_append]; omega),
        cutImages_zero, cutImages]
  | cons first images ih =>
    rw [List.cons_append, List.cons_append, cutImages, cutImages]
    split
    · rfl
    · rw [ih]
      simp only [totalBytes, List.cons_append, List.map_cons, List.sum_cons] at within ⊢
      omega

theorem cutImages_all {images : List SegmentImage} (nonempty : ∀ image ∈ images, image.bytes ≠ []) :
    cutImages images (totalBytes images) = images := by
  induction images with
  | nil => rfl
  | cons image images ih =>
    have long := List.length_pos_iff.mpr (nonempty image (List.mem_cons_self ..))
    have sum : totalBytes (image :: images) = image.bytes.length + totalBytes images := List.sum_cons
    rw [cutImages, if_neg (by omega), sum, List.take_of_length_le (by omega), add_tsub_cancel_left,
      ih fun other held => nonempty other (List.mem_cons_of_mem _ held)]

theorem Grows.cutImages (grows : Grows front last front' last') (unpadded' : last.padding = [])
    (within : keep ≤ totalBytes ((front ++ [last]).map Filled.image)) :
    cutImages ((front' ++ [last']).map Filled.image) keep = cutImages ((front ++ [last]).map Filled.image) keep := by
  have same : (front ++ [last]).map Filled.image = front.map Filled.image ++ [last.image] := by simp
  rw [same] at within ⊢
  cases grows with
  | refused => rw [same]
  | placed item =>
    have extended : (front ++ [{ last with items := last.items ++ [item] }]).map Filled.image =
        front.map Filled.image ++ ⟨last.image.sequence, last.image.bytes ++ item.frame⟩ :: [] := by
      simp [Filled.image, Filled.bytes, unpadded']
    rw [extended]
    exact cutImages_extend _ _ _ _ within
  | rolled padding item =>
    have extended :
        (front ++ [{ last with padding }] ++ [(⟨last.sequence + 1, [item], []⟩ : Filled)]).map Filled.image =
        front.map Filled.image ++ ⟨last.image.sequence, last.image.bytes ++ padding⟩ ::
          [Filled.image ⟨last.sequence + 1, [item], []⟩] := by
      simp [Filled.image, Filled.bytes, unpadded']
    rw [extended]
    exact cutImages_extend _ _ _ _ within

theorem Grows.totalBytes (grows : Grows front last front' last') (unpadded' : last.padding = []) :
    totalBytes ((front ++ [last]).map Filled.image) ≤ totalBytes ((front' ++ [last']).map Filled.image) := by
  cases grows with
  | refused => exact Nat.le_refl _
  | placed item => simp [WriteAhead.totalBytes, Filled.image, Filled.bytes_length]
  | rolled padding item =>
    simp [WriteAhead.totalBytes, Filled.image, Filled.bytes_length, unpadded']
    omega

/-- A log with what was durable, and how many records it had, at its last commit. -/
structure Host where
  wal : Wal
  durable : List SegmentImage
  committed : Nat

inductive Call where
  | append (kind : RecordType) (payload : Bytes)
  | commit
  deriving DecidableEq, Repr

namespace Host

def new (config : WalConfig) : Except WalError Host :=
  (Wal.new config).map fun wal => ⟨wal, wal.durableImages, 0⟩

def call (host : Host) : Call → Option Host
  | .append kind payload => (host.wal.append kind payload).map fun next => { host with wal := next.2 }
  | .commit =>
    let next := host.wal.commit.2
    some ⟨next, next.durableImages, next.records.length⟩

def run (host : Host) (calls : List Call) : Option Host := calls.foldlM call host

def survivors (host : Host) (keep : Nat) : List SegmentImage :=
  cutImages host.wal.segmentImages (totalBytes host.durable + keep)

structure Sound (host : Host) (front : List Filled) (last : Filled) : Prop where
  laid : Laid host.wal front last
  unpadded : last.padding = []
  durable : cutImages host.wal.segmentImages (totalBytes host.durable) = host.durable
  within : totalBytes host.durable ≤ totalBytes host.wal.segmentImages
  some' : 0 < totalBytes host.durable
  committed : host.committed ≤ (wholeRecords (front ++ [last]) (totalBytes host.durable)).length

theorem bytes_nonempty {images : List SegmentImage} (filled : List Filled) (same : images = filled.map Filled.image) :
    ∀ image ∈ images, image.bytes ≠ [] := by
  intro image held
  rw [same] at held
  obtain ⟨one, -, rfl⟩ := List.mem_map.mp held
  refine List.length_pos_iff.mp ?_
  change 0 < one.bytes.length
  rw [one.bytes_length]
  exact Nat.add_pos_left (by decide) _

theorem wholeRecords_all (filled : List Filled) :
    wholeRecords filled (totalBytes (filled.map Filled.image)) = filled.flatMap Filled.records := by
  induction filled with
  | nil => rfl
  | cons first rest ih =>
    have sum : totalBytes ((first :: rest).map Filled.image) =
        first.bytes.length + totalBytes (rest.map Filled.image) := List.sum_cons
    rw [wholeRecords, sum, add_tsub_cancel_left, ih, take_whole_records (Nat.le_add_right ..), List.flatMap_cons]

variable {host : Host}

theorem new_sound {config : WalConfig} (done : new config = .ok host) :
    host.wal.config = config ∧ host.Sound [] ⟨0, [], []⟩ := by
  unfold new Wal.new at done
  split at done
  · cases done
  obtain rfl := Except.ok.inj done
  refine ⟨rfl, ⟨rfl, rfl, ⟨rfl, trivial⟩, ?_⟩, rfl, ?_, ?_, ?_, Nat.zero_le _⟩
  · intro filled held
    obtain rfl := List.mem_singleton.mp held
    exact ⟨Nat.zero_le _, by simp, show segmentHeaderSize + (frames []).length ≤ u32Max by decide, .zeros 0⟩
  · exact cutImages_all (bytes_nonempty [⟨0, [], []⟩] rfl)
  · exact Nat.le_refl _
  · change 0 < (segmentHeader 0).length + 0
    rw [segmentHeader_length]
    decide

theorem call_sound {next : Host} {front : List Filled} {last : Filled} (sound : host.Sound front last) {call' : Call}
    (done : host.call call' = some next) :
    next.wal.config = host.wal.config ∧ ∃ front' last', next.Sound front' last' := by
  cases call' with
  | append kind payload =>
    obtain ⟨⟨result, wal⟩, appended, rfl⟩ := Option.map_eq_some_iff.mp done
    obtain ⟨config, front', last', grows, laid⟩ := sound.laid.append sound.unpadded appended
    have within := sound.within
    rw [sound.laid.images] at within
    have cut := grows.cutImages sound.unpadded within
    refine ⟨config, front', last', laid, grows.padding sound.unpadded, ?_, ?_, ?_, ?_⟩
    · change cutImages wal.segmentImages (totalBytes host.durable) = host.durable
      rw [laid.images, cut, ← sound.laid.images, sound.durable]
    · change totalBytes host.durable ≤ totalBytes wal.segmentImages
      rw [laid.images]
      exact within.trans (grows.totalBytes sound.unpadded)
    · exact sound.some'
    · exact sound.committed.trans (grows.wholeRecords _)
  | commit =>
    obtain rfl := Option.some.inj done
    have same : host.wal.commit.2.segmentImages = host.wal.segmentImages := by
      simp [Wal.commit, Wal.segmentImages]
    have all : host.wal.commit.2.durableImages = host.wal.segmentImages := by
      simp [Wal.commit, Wal.segmentImages, Wal.durableImages]
    refine ⟨rfl, front, last, ⟨same.trans sound.laid.images, sound.laid.records, sound.laid.numbered,
      sound.laid.proper⟩, sound.unpadded, ?_, ?_, ?_, ?_⟩
    · change cutImages host.wal.commit.2.segmentImages (totalBytes host.wal.commit.2.durableImages) =
        host.wal.commit.2.durableImages
      rw [same, all]
      exact cutImages_all (bytes_nonempty _ sound.laid.images)
    · exact le_of_eq (congrArg totalBytes (all.trans same.symm))
    · change 0 < totalBytes host.wal.commit.2.durableImages
      rw [all]
      exact sound.some'.trans_le sound.within
    · change host.wal.records.length ≤
        (wholeRecords (front ++ [last]) (totalBytes host.wal.commit.2.durableImages)).length
      rw [all, sound.laid.images, wholeRecords_all, sound.laid.records]

theorem run_sound {last : Host} {calls : List Call} (ran : host.run calls = some last)
    (sound : ∃ front tail, host.Sound front tail) :
    last.wal.config = host.wal.config ∧ ∃ front tail, last.Sound front tail := by
  induction calls generalizing host with
  | nil =>
    obtain rfl := Option.some.inj ran
    exact ⟨rfl, sound⟩
  | cons call' calls ih =>
    obtain ⟨next, step, rest⟩ := Option.bind_eq_some_iff.mp ran
    obtain ⟨front, tail, sound⟩ := sound
    obtain ⟨config, sound'⟩ := call_sound sound step
    obtain ⟨config', sound''⟩ := ih rest sound'
    exact ⟨config'.trans config, sound''⟩

end Host

theorem Cut.isPrefix_records (cut : Cut all front last back keep count) :
    wholeRecords all keep <+: all.flatMap Filled.records := by
  rw [cut.records, cut.parts, List.flatMap_append, List.flatMap_cons, ← List.append_assoc]
  refine List.IsPrefix.trans ?_ (List.prefix_append _ _)
  exact (List.prefix_append_right_inj _).mpr ( List.take_prefix _ _)

/-- The last image has its header, and no record is mistaken for a later one. -/
@[mk_iff] structure Host.Recoverable (host : Host) (keep : Nat) : Prop where
  header : ∀ image ∈ (host.survivors keep).getLast?, segmentHeaderSize ≤ image.bytes.length
  clean : ∀ image ∈ (host.survivors keep).getLast?, Clean host.wal.config.maxRecordSize host.wal.records image

theorem Cut.clean_iff (cut : Cut all front last back keep count) (numbered : Numbered 0 all) :
    Clean maxRecordSize (all.flatMap Filled.records) ⟨last.sequence, last.bytes.take count⟩ ↔
      Clean maxRecordSize last.records ⟨last.sequence, last.bytes.take count⟩ := by
  rw [cut.parts] at numbered ⊢
  obtain ⟨numbered, position, behind⟩ := numbered_append.mp numbered
  rw [List.flatMap_append, List.flatMap_cons]
  constructor
  · intro clean record held
    exact clean record (List.mem_append_right _ (List.mem_append_left _ held))
  · intro clean record held torn
    rcases List.mem_append.mp held with before | held
    · obtain ⟨filled, inFront, held⟩ := List.mem_flatMap.mp before
      have := (numbered.bounds inFront).2
      have := (recordsFrom_bounds held).1
      have := torn.1
      dsimp only at this
      omega
    · rcases List.mem_append.mp held with here | after
      · exact clean record here torn
      · obtain ⟨filled, inBack, held⟩ := List.mem_flatMap.mp after
        have := (behind.bounds inBack).1
        have := (recordsFrom_bounds held).1
        have := torn.1
        dsimp only at this
        omega

theorem recoverSegments_iff (cut : Cut all front last back keep count) (numbered : Numbered 0 all)
    (proper : ∀ filled ∈ all, filled.Proper maxRecordSize) :
    (∀ recovered, recoverSegments maxRecordSize 0 (cutImages (all.map Filled.image) keep) [] [] =
        some (.ok recovered) → recovered.records = unpadded (wholeRecords all keep)) ∧
    ((∃ recovered, recoverSegments maxRecordSize 0 (cutImages (all.map Filled.image) keep) [] [] =
        some (.ok recovered)) ↔ segmentHeaderSize ≤ count ∧
      Clean maxRecordSize (all.flatMap Filled.records) ⟨last.sequence, last.bytes.take count⟩) := by
  rw [cut.clean_iff numbered, cut.images, cut.records]
  rw [cut.parts] at numbered proper
  obtain ⟨numbered, position, -⟩ := numbered_append.mp numbered
  obtain ⟨normalized, done⟩ := recoverSegments_front numbered
    (fun filled held => proper filled (List.mem_append_left _ held)) ⟨last.sequence, last.bytes.take count⟩ [] []
  have lastProper := proper last (List.mem_append_right _ (List.mem_cons_self ..))
  rw [done, ← position, List.nil_append, unpadded_append]
  rcases Nat.lt_or_ge count segmentHeaderSize with short | long
  · have failed : checkHeader ⟨last.sequence, last.bytes.take count⟩ last.sequence =
        .error (.invalidRecord last.sequence 0 "missing segment header") := by
      unfold checkHeader
      dsimp only
      rw [if_neg (by simp), if_pos (by rw [List.length_take]; omega)]
    rw [recoverSegments, failed]
    simp [not_le.mpr short]
  · obtain ⟨reads, fails⟩ :=
      recoverSegments_last lastProper long (unpadded (front.flatMap Filled.records)) normalized
    by_cases clean : Clean maxRecordSize last.records ⟨last.sequence, last.bytes.take count⟩
    · obtain ⟨recovered, ok, records⟩ := reads clean
      refine ⟨fun other ok' => ?_, fun _ => ⟨long, clean⟩, fun _ => ⟨recovered, ok⟩⟩
      rw [← Except.ok.inj (Option.some.inj (ok.symm.trans ok')), records]
    · refine ⟨fun recovered ok => absurd ok (fails clean recovered), ?_, fun both => absurd both.2 clean⟩
      rintro ⟨recovered, ok⟩
      exact absurd ok (fails clean recovered)

/-- After any calls and any crash, recovery returns the committed records and a first
part of those appended since, exactly when the crash is of the kind above. -/
theorem recovery_iff {config : WalConfig} {first host : Host} (opened : Host.new config = .ok first)
    {calls : List Call} (ran : first.run calls = some host) (keep : Nat) :
    (∃ recovered, recover (host.survivors keep) config = some (.ok recovered) ∧
        ∃ kept, recovered.records = unpadded (host.wal.records.take host.committed ++
          (host.wal.records.drop host.committed).take kept)) ↔
      host.Recoverable keep := by
  obtain ⟨config', sound⟩ := Host.new_sound opened
  obtain ⟨config'', front, tail, sound⟩ := Host.run_sound ran ⟨_, _, sound⟩
  have roomy : ¬ config.segmentSize < segmentHeaderSize + recordHeaderSize := by
    intro small
    rw [Host.new, Wal.new, if_pos (.inl small)] at opened
    cases opened
  obtain ⟨head, rest, shape⟩ :=
    List.exists_cons_of_ne_nil (List.append_ne_nil_of_right_ne_nil front (List.cons_ne_nil tail []))
  obtain ⟨before, last, back, count, cut⟩ := exists_cut head rest (Nat.add_pos_left sound.some' keep)
  rw [← shape] at cut
  obtain ⟨reads, ok_iff⟩ := recoverSegments_iff cut sound.laid.numbered sound.laid.proper
  have size : host.wal.config.maxRecordSize = config.maxRecordSize := by rw [config'', config']
  have survivors : host.survivors keep =
      before.map Filled.image ++ [⟨last.sequence, last.bytes.take count⟩] := by
    rw [Host.survivors, sound.laid.images, cut.images]
  have same : recover (host.survivors keep) config = recoverSegments host.wal.config.maxRecordSize 0
      (cutImages ((front ++ [tail]).map Filled.image) (totalBytes host.durable + keep)) [] [] := by
    rw [recover, if_neg (by rw [survivors, decide_eq_false roomy]; simp), Host.survivors, sound.laid.images, size]
  have long : (last.bytes.take count).length = count := by rw [List.length_take, min_eq_left cut.within]
  have sound' : host.Recoverable keep ↔ segmentHeaderSize ≤ count ∧ Clean host.wal.config.maxRecordSize
      ((front ++ [tail]).flatMap Filled.records) ⟨last.sequence, last.bytes.take count⟩ := by
    have final : (host.survivors keep).getLast? = some ⟨last.sequence, last.bytes.take count⟩ := by
      rw [survivors, List.getLast?_concat]
    rw [← sound.laid.records]
    constructor
    · intro recoverable
      exact ⟨long ▸ recoverable.header _ final, recoverable.clean _ final⟩
    · rintro ⟨header, clean⟩
      constructor
      · intro image held
        obtain rfl := Option.some.inj (final.symm.trans held)
        exact long.symm ▸ header
      · intro image held
        obtain rfl := Option.some.inj (final.symm.trans held)
        exact clean
  -- The whole records are a first part of all of them, no shorter than the committed ones.
  obtain ⟨more, whole'⟩ := cut.isPrefix_records
  have enough : host.committed ≤ (wholeRecords (front ++ [tail]) (totalBytes host.durable + keep)).length :=
    sound.committed.trans (wholeRecords_mono _ (Nat.le_add_right ..))
  rw [same, sound', ← ok_iff]
  constructor
  · rintro ⟨recovered, ok, -⟩
    exact ⟨recovered, ok⟩
  · rintro ⟨recovered, ok⟩
    refine ⟨recovered, ok, (wholeRecords (front ++ [tail]) (totalBytes host.durable + keep)).length - host.committed, ?_⟩
    rw [reads recovered ok, ← List.take_add, Nat.add_sub_cancel' enough, sound.laid.records, ← whole', List.take_left]

def smallLog : WalConfig := ⟨64, 32⟩

instance (host : Host) (keep : Nat) : Decidable (host.Recoverable keep) :=
  decidable_of_iff _ (host.recoverable_iff keep).symm

theorem recovery_iff_torn : ∃ first host, Host.new smallLog = .ok first ∧
    first.run [.append .data [1], .commit, .append .data [2, 3]] = some host ∧
    ∃ recovered, recover (host.survivors 10) smallLog = some (.ok recovered) ∧
      ∃ kept, recovered.records = unpadded (host.wal.records.take host.committed ++
        (host.wal.records.drop host.committed).take kept) := by
  have opened : ∃ first, Host.new smallLog = .ok first := ⟨_, rfl⟩
  obtain ⟨first, opened⟩ := opened
  have ran : (first.run [.append .data [1], .commit, .append .data [2, 3]]).isSome ∧
      ∀ host ∈ first.run [.append .data [1], .commit, .append .data [2, 3]], host.Recoverable 10 := by
    obtain rfl := Except.ok.inj opened
    decide +kernel
  obtain ⟨host, run⟩ := Option.isSome_iff_exists.mp ran.1
  exact ⟨first, host, opened, run, (recovery_iff opened run 10).mpr (ran.2 host run)⟩

def nested : Bytes := frame .data [] ++ [0]

/-- A torn record that was never committed keeps the log from being recovered. -/
theorem nested_record_is_mistaken :
    ((Host.new smallLog).toOption.bind fun first => first.run [.append .data nested]).map
      (fun host => (host.committed, host.wal.records.length, recover (host.survivors 18) smallLog)) =
    some (0, 1, some (.error (.midLogCorruption 0 14))) := by
  decide +kernel

end CrashCourse.WriteAhead
