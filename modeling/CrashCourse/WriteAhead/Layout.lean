import CrashCourse.WriteAhead.Parsing

/-!
How the log lies on its segments: their bytes in order are in the order they were written.
-/

namespace CrashCourse.WriteAhead
open CrashCourse.Core

abbrev Item := RecordType × Bytes

def Item.frame (item : Item) : Bytes := WriteAhead.frame item.1 item.2

theorem Item.frame_pos (item : Item) : 0 < item.frame.length := by
  rw [Item.frame, frame_length]
  exact Nat.add_pos_left (by decide) _

def frames (items : List Item) : Bytes := items.flatMap Item.frame

@[simp] theorem frames_nil : frames [] = [] := rfl

@[simp] theorem frames_cons (item : Item) (items : List Item) : frames (item :: items) = item.frame ++ frames items :=
  List.flatMap_cons ..

@[simp] theorem frames_append (items others : List Item) : frames (items ++ others) = frames items ++ frames others :=
  List.flatMap_append ..

theorem length_le_frames (items : List Item) : items.length ≤ (frames items).length := by
  induction items with
  | nil => exact Nat.le_refl _
  | cons item items ih =>
    have := item.frame_pos
    rw [frames_cons, List.length_append, List.length_cons]
    omega

def recordsFrom (sequence : Nat) : Nat → List Item → List LogRecord
  | _, [] => []
  | offset, item :: items =>
    ⟨⟨sequence, offset⟩, item.1, item.2⟩ :: recordsFrom sequence (offset + item.frame.length) items

theorem recordsFrom_append (sequence offset : Nat) (items others : List Item) :
    recordsFrom sequence offset (items ++ others) =
      recordsFrom sequence offset items ++ recordsFrom sequence (offset + (frames items).length) others := by
  induction items generalizing offset with
  | nil => rfl
  | cons item items ih =>
    rw [List.cons_append, recordsFrom, recordsFrom, ih, frames_cons, List.length_append, List.cons_append, add_assoc]

theorem recordsFrom_length (sequence offset : Nat) (items : List Item) :
    (recordsFrom sequence offset items).length = items.length := by
  induction items generalizing offset with
  | nil => rfl
  | cons item items ih => rw [recordsFrom, List.length_cons, List.length_cons, ih]

def whole : List Item → Nat → Nat
  | [], _ => 0
  | item :: items, count => if item.frame.length ≤ count then whole items (count - item.frame.length) + 1 else 0

theorem whole_zero (items : List Item) : whole items 0 = 0 := by
  cases items with
  | nil => rfl
  | cons item items =>
    have := item.frame_pos
    rw [whole, if_neg (by omega)]

theorem whole_of_le {items : List Item} {count : Nat} (enough : (frames items).length ≤ count) :
    whole items count = items.length := by
  induction items generalizing count with
  | nil => rfl
  | cons item items ih =>
    rw [frames_cons, List.length_append] at enough
    rw [whole, if_pos (by omega), ih (by omega), List.length_cons]

theorem whole_mono (items : List Item) {count count' : Nat} (more : count ≤ count') :
    whole items count ≤ whole items count' := by
  induction items generalizing count count' with
  | nil => exact Nat.le_refl _
  | cons item items ih =>
    rw [whole, whole]
    split
    · rw [if_pos (by omega)]
      exact Nat.succ_le_succ (ih (by omega))
    · exact Nat.zero_le _

theorem whole_append (items others : List Item) (count : Nat) :
    whole items count ≤ whole (items ++ others) count := by
  induction items generalizing count with
  | nil => exact Nat.zero_le _
  | cons item items ih =>
    rw [List.cons_append, whole, whole]
    split
    · exact Nat.succ_le_succ (ih _)
    · exact Nat.le_refl _

theorem take_frames (items : List Item) (after : Bytes) (count : Nat) :
    (∃ front item back, items = front ++ item :: back ∧ whole items count = front.length ∧
      ∃ left, left < item.frame.length ∧ (frames items ++ after).take count = frames front ++ item.frame.take left) ∨
    whole items count = items.length ∧ (frames items).length ≤ count ∧
      (frames items ++ after).take count = frames items ++ after.take (count - (frames items).length) := by
  induction items generalizing count with
  | nil => exact .inr ⟨rfl, Nat.zero_le _, rfl⟩
  | cons item items ih =>
    rw [whole, frames_cons, List.append_assoc, List.length_append]
    split
    next fits =>
      rw [List.take_append, List.take_of_length_le fits]
      rcases ih (count - item.frame.length) with
        ⟨front, torn, back, rfl, same, left, short, bytes⟩ | ⟨same, enough, bytes⟩
      · refine .inl ⟨item :: front, torn, back, rfl, by rw [same, List.length_cons], left, short, ?_⟩
        rw [bytes, frames_cons, List.append_assoc]
      · refine .inr ⟨by rw [same, List.length_cons], by omega, ?_⟩
        rw [bytes, List.append_assoc, Nat.sub_sub]
    next cut =>
      refine .inl ⟨[], item, items, rfl, rfl, count, by omega, ?_⟩
      rw [List.take_append_of_le_length (by omega), frames_nil, List.nil_append]

inductive IsPadding (maxRecordSize : Nat) : Bytes → Prop
  | zeros (count : Nat) : IsPadding maxRecordSize (List.replicate count 0)
  | pad (count : Nat) (fits : Fits maxRecordSize (List.replicate count 0)) :
      IsPadding maxRecordSize (frame .pad (List.replicate count 0))

structure Filled where
  sequence : Nat
  items : List Item
  padding : Bytes

namespace Filled

def bytes (filled : Filled) : Bytes := segmentHeader filled.sequence ++ (frames filled.items ++ filled.padding)

def image (filled : Filled) : SegmentImage := ⟨filled.sequence, filled.bytes⟩

def records (filled : Filled) : List LogRecord := recordsFrom filled.sequence segmentHeaderSize filled.items

structure Proper (maxRecordSize : Nat) (filled : Filled) : Prop where
  sequence : filled.sequence ≤ u64Max
  items : ∀ item ∈ filled.items, Fits maxRecordSize item.2
  low : segmentHeaderSize + (frames filled.items).length ≤ u32Max
  padding : IsPadding maxRecordSize filled.padding

theorem bytes_length (filled : Filled) :
    filled.bytes.length = segmentHeaderSize + ((frames filled.items).length + filled.padding.length) := by
  simp only [bytes, List.length_append, segmentHeader_length]

end Filled

def Numbered : Nat → List Filled → Prop
  | _, [] => True
  | index, filled :: rest => filled.sequence = index ∧ Numbered (index + 1) rest

theorem numbered_append {index : Nat} {front back : List Filled} :
    Numbered index (front ++ back) ↔ Numbered index front ∧ Numbered (index + front.length) back := by
  induction front generalizing index with
  | nil => simp [Numbered]
  | cons filled front ih =>
    rw [List.cons_append, Numbered, Numbered, ih, List.length_cons, and_assoc, add_assoc, add_comm 1]

theorem Numbered.bounds {index : Nat} {filled : List Filled} (numbered : Numbered index filled) {one : Filled}
    (held : one ∈ filled) : index ≤ one.sequence ∧ one.sequence < index + filled.length := by
  induction filled generalizing index with
  | nil => cases held
  | cons first rest ih =>
    rw [List.length_cons]
    rcases List.mem_cons.mp held with rfl | later
    · have := numbered.1
      omega
    · have := ih numbered.2 later
      omega

def cutImages : List SegmentImage → Nat → List SegmentImage
  | [], _ => []
  | image :: images, keep =>
    if keep = 0 then []
    else ⟨image.sequence, image.bytes.take keep⟩ :: cutImages images (keep - image.bytes.length)

theorem cutImages_zero (images : List SegmentImage) : cutImages images 0 = [] := by
  cases images with
  | nil => rfl
  | cons image images => rw [cutImages, if_pos rfl]

def wholeRecords : List Filled → Nat → List LogRecord
  | [], _ => []
  | filled :: rest, keep =>
    filled.records.take (whole filled.items (keep - segmentHeaderSize)) ++
      wholeRecords rest (keep - filled.bytes.length)

theorem wholeRecords_zero (filled : List Filled) : wholeRecords filled 0 = [] := by
  induction filled with
  | nil => rfl
  | cons first rest ih =>
    rw [wholeRecords, Nat.zero_sub, Nat.zero_sub, whole_zero, ih, List.take_zero, List.nil_append]

structure Cut (all front : List Filled) (last : Filled) (back : List Filled) (keep count : Nat) : Prop where
  parts : all = front ++ last :: back
  some' : 0 < count
  within : count ≤ last.bytes.length
  images : cutImages (all.map Filled.image) keep = front.map Filled.image ++ [⟨last.sequence, last.bytes.take count⟩]
  records : wholeRecords all keep =
    front.flatMap Filled.records ++ last.records.take (whole last.items (count - segmentHeaderSize))

theorem records_length (filled : Filled) : filled.records.length = filled.items.length := recordsFrom_length ..

theorem take_whole_records {filled : Filled} {keep : Nat} (enough : filled.bytes.length ≤ keep) :
    filled.records.take (whole filled.items (keep - segmentHeaderSize)) = filled.records := by
  rw [filled.bytes_length] at enough
  rw [whole_of_le (by omega), ← records_length, List.take_length]

theorem exists_cut (first : Filled) (rest : List Filled) {keep : Nat} (some' : 0 < keep) :
    ∃ front last back count, Cut (first :: rest) front last back keep count := by
  have long : 0 < first.bytes.length := by
    rw [first.bytes_length]
    exact Nat.add_pos_left (by decide) _
  induction rest generalizing first keep with
  | nil =>
    refine ⟨[], first, [], min keep first.bytes.length, rfl, by omega, min_le_right .., ?_, ?_⟩
    · rw [List.map_cons, cutImages, if_neg (by omega)]
      simp [cutImages, Filled.image, List.take_eq_take_min]
    · rw [wholeRecords, wholeRecords, List.append_nil, List.flatMap_nil, List.nil_append]
      rcases le_total keep first.bytes.length with less | more
      · rw [min_eq_left less]
      · rw [min_eq_right more, take_whole_records more, take_whole_records le_rfl]
  | cons second rest ih =>
    rcases Nat.lt_or_ge first.bytes.length keep with more | less
    · have long' : 0 < second.bytes.length := by
        rw [second.bytes_length]
        exact Nat.add_pos_left (by decide) _
      obtain ⟨front, last, back, count, cut⟩ := ih second (Nat.sub_pos_of_lt more) long'
      refine ⟨first :: front, last, back, count, by rw [cut.parts, List.cons_append], cut.some', cut.within, ?_, ?_⟩
      · rw [List.map_cons, cutImages, if_neg (by omega)]
        simp only [Filled.image, List.take_of_length_le more.le]
        exact congrArg _ cut.images
      · rw [wholeRecords, cut.records, take_whole_records more.le, List.flatMap_cons, List.append_assoc]
    · refine ⟨[], first, second :: rest, keep, rfl, some', less, ?_, ?_⟩
      · rw [List.map_cons, cutImages, if_neg (by omega)]
        simp only [Filled.image, Nat.sub_eq_zero_of_le less]
        rw [cutImages_zero]
        rfl
      · rw [wholeRecords, Nat.sub_eq_zero_of_le less, wholeRecords_zero, List.append_nil, List.flatMap_nil,
          List.nil_append]

end CrashCourse.WriteAhead
