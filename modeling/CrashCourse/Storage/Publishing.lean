import CrashCourse.Storage.Codecs

/-!
Crashes during a publication. A boot sees only the renames and deletions of a plan.
-/

namespace CrashCourse.Storage
open CrashCourse.Core

def Seen.change (seen : Seen) (change : FileId × Option Bytes) : Seen :=
  match change.2 with
  | some bytes => seen.put change.1 bytes
  | none => seen.remove change.1

def Seen.changeAll (seen : Seen) (changes : List (FileId × Option Bytes)) : Seen := changes.foldl Seen.change seen

theorem changeAll_append (seen : Seen) (changes others : List (FileId × Option Bytes)) :
    seen.changeAll (changes ++ others) = (seen.changeAll changes).changeAll others := List.foldl_append ..

/-- A first part of the steps makes a first part of the changes, and all steps make all of them. -/
def Shows (steps : List StorePlanStep) (changes : List (FileId × Option Bytes)) : Prop :=
  ∀ (disk : Disk) (count : Nat), ∃ shown ≤ changes.length,
    (disk.execute (steps.take count)).seen = disk.seen.changeAll (changes.take shown) ∧
      (steps.length ≤ count → shown = changes.length)

theorem Shows.append {steps others : List StorePlanStep} {changes changes' : List (FileId × Option Bytes)}
    (first : Shows steps changes) (second : Shows others changes') : Shows (steps ++ others) (changes ++ changes') := by
  intro disk count
  rcases Nat.lt_or_ge count steps.length with within | past
  · obtain ⟨shown, bound, seen, -⟩ := first disk count
    refine ⟨shown, by rw [List.length_append]; omega, ?_, fun all => ?_⟩
    · rw [List.take_append_of_le_length within.le, List.take_append_of_le_length bound, seen]
    · rw [List.length_append] at all
      omega
  · obtain ⟨shown, -, seen, whole⟩ := first disk count
    obtain ⟨shown', bound, seen', whole'⟩ := second (disk.execute steps) (count - steps.length)
    rw [List.take_of_length_le past, whole past, List.take_length] at seen
    refine ⟨changes.length + shown', by rw [List.length_append]; omega, ?_, fun all => ?_⟩
    · rw [List.take_append, List.take_of_length_le past, Disk.execute, List.foldl_append]
      refine seen'.trans ?_
      rw [seen, ← changeAll_append, List.take_length_add_append]
    · rw [List.length_append] at all ⊢
      rw [whole' (by omega)]

theorem shows_nil : Shows [] [] :=
  fun _ _ => ⟨0, le_rfl, by rw [List.take_nil, List.take_nil]; rfl, fun _ => rfl⟩

theorem shows_step {step : StorePlanStep} {changes : List (FileId × Option Bytes)}
    (made : ∀ disk : Disk, (disk.step step).seen = disk.seen.changeAll changes) : Shows [step] changes := by
  intro disk count
  cases count with
  | zero => exact ⟨0, Nat.zero_le _, rfl, fun all => absurd all (by simp)⟩
  | succ count =>
    refine ⟨changes.length, le_rfl, ?_, fun _ => rfl⟩
    rw [List.take_length, List.take_succ_cons, List.take_nil]
    exact made disk

theorem shows_deletes (inputs : List (Nat × Nat)) :
    Shows (inputs.map fun input => .delete (.sst input.2)) (inputs.map fun input => (.sst input.2, none)) := by
  induction inputs with
  | nil => exact shows_nil
  | cons input inputs ih =>
    change Shows ([.delete (.sst input.2)] ++ _) ([(.sst input.2, none)] ++ _)
    exact (shows_step fun disk => rfl).append ih

def FileId.isTemp : FileId → Bool
  | .temp _ => true
  | _ => false

theorem shows_publish (sequence : Nat) {target : FileId} (visible : target.isTemp = false) (bytes : Bytes) :
    Shows (publishSteps sequence target bytes) [(target, some bytes)] := by
  intro disk count
  have renamed : (disk.execute ((publishSteps sequence target bytes).take 4)).seen = disk.seen.put target bytes := by
    simp only [publishSteps, List.take_succ_cons, List.take_zero, Disk.execute, List.foldl_cons, List.foldl_nil,
      Disk.step, Disk.put, Disk.find, Std.ExtTreeMap.getElem?_insert_self, Disk.remove]
    cases target with
    | temp other => cases visible
    | sst fileNo | manifest generation | pointer => rfl
  -- the fourth step is the rename; those before it write a temporary file, the last one syncs
  rcases count with _ | _ | _ | _ | _ | count
  · exact ⟨0, Nat.zero_le _, rfl, fun all => absurd all (by simp [publishSteps])⟩
  · exact ⟨0, Nat.zero_le _, rfl, fun all => absurd all (by simp [publishSteps])⟩
  · exact ⟨0, Nat.zero_le _, rfl, fun all => absurd all (by simp [publishSteps])⟩
  · exact ⟨0, Nat.zero_le _, rfl, fun all => absurd all (by simp [publishSteps])⟩
  · exact ⟨1, le_rfl, renamed, fun _ => rfl⟩
  · refine ⟨1, le_rfl, ?_, fun _ => rfl⟩
    rw [List.take_of_length_le (by simp [publishSteps])]
    exact renamed

theorem shows_publishAll {overflow : String} {sequence : Nat} {files : List (FileId × Bytes)}
    {steps : List StorePlanStep} (done : publishAll overflow sequence files = .ok steps)
    (visible : ∀ file ∈ files, file.1.isTemp = false) :
    Shows steps (files.map fun file => (file.1, some file.2)) := by
  induction files generalizing sequence steps with
  | nil =>
    obtain rfl := Except.ok.inj done
    exact shows_nil
  | cons file files ih =>
    obtain ⟨target, bytes⟩ := file
    rw [List.forall_mem_cons] at visible
    rw [publishAll] at done
    split at done
    · cases done
    cases rest : publishAll overflow (sequence + 1) files with
    | error error =>
      rw [rest] at done
      cases done
    | ok later =>
      rw [rest] at done
      obtain rfl : publishSteps sequence target bytes ++ later = steps := Except.ok.inj done
      exact (shows_publish sequence visible.1 bytes).append (ih rest visible.2)

theorem visible_tables {tables : List (Nat × Bytes)} {others : List (FileId × Bytes)}
    (visible : ∀ file ∈ others, file.1.isTemp = false) :
    ∀ file ∈ tables.map (fun table => (FileId.sst table.1, table.2)) ++ others, file.1.isTemp = false := by
  intro file listed
  rcases List.mem_append.mp listed with table | other
  · obtain ⟨_, -, rfl⟩ := List.mem_map.mp table
    rfl
  · exact visible file other

theorem changeAll_find {changes : List (FileId × Option Bytes)} {target : FileId}
    (fresh : ∀ change ∈ changes, change.1 ≠ target) (seen : Seen) :
    (seen.changeAll changes).find target = seen.find target := by
  induction changes generalizing seen with
  | nil => rfl
  | cons change changes ih =>
    rw [List.forall_mem_cons] at fresh
    refine (ih fresh.2 _).trans ?_
    obtain ⟨file, bytes⟩ := change
    cases bytes with
    | some bytes =>
      cases file <;> cases target <;>
        simp_all [Seen.change, Seen.put, Seen.find, Std.ExtTreeMap.getElem?_insert]
    | none =>
      cases file <;> cases target <;>
        simp_all [Seen.change, Seen.remove, Seen.find, Std.ExtTreeMap.getElem?_erase]

def tableChanges (tables : BTreeMap Nat Bytes) : List (FileId × Option Bytes) :=
  tables.toList.map fun table => (.sst table.1, some table.2)

theorem mem_tableChanges {tables : BTreeMap Nat Bytes} {change : FileId × Option Bytes}
    (listed : change ∈ tableChanges tables) : ∃ fileNo ∈ tables, change.1 = .sst fileNo := by
  obtain ⟨table, held, rfl⟩ := List.mem_map.mp listed
  refine ⟨table.1, ?_, rfl⟩
  rw [Std.ExtTreeMap.mem_iff_isSome_getElem?, Std.ExtTreeMap.mem_toList_iff_getElem?_eq_some.mp held]
  rfl

theorem changeAll_tables (seen : Seen) (tables : BTreeMap Nat Bytes) :
    seen.changeAll (tableChanges tables) = { seen with tables := seen.tables.insertMany tables.toList } := by
  unfold tableChanges
  induction tables.toList generalizing seen with
  | nil => simp [Seen.changeAll]
  | cons table rest ih =>
    rw [List.map_cons, Std.ExtTreeMap.insertMany_cons]
    exact ih (seen.put (.sst table.1) table.2)

namespace Formats
variable {formats : Formats} {least : Nat} {limits : SstV2Limits} {manifest : ManifestV2}
  {tables tables' : BTreeMap Nat Bytes}

theorem verifyTables_congr (same : ∀ fileNo ∈ manifest.files, tables[fileNo]? = tables'[fileNo]?) :
    formats.verifyTables least manifest tables limits = formats.verifyTables least manifest tables' limits := by
  refine forM_congr fun entry held => ?_
  have named : entry.1 ∈ manifest.files := by
    rw [Std.ExtTreeMap.mem_iff_isSome_getElem?, Std.ExtTreeMap.mem_toList_iff_getElem?_eq_some.mp held]
    rfl
  unfold verifyTable
  rw [same entry.1 named]

theorem verifyTables_missing {fileNo : Nat} (named : fileNo ∈ manifest.files) (gone : tables[fileNo]? = none) :
    formats.verifyTables least manifest tables limits ≠ .ok () := by
  intro done
  obtain ⟨file, found⟩ := Option.isSome_iff_exists.mp (Std.ExtTreeMap.mem_iff_isSome_getElem?.mp named)
  have checked := forM_ok_iff.mp done (fileNo, file) (Std.ExtTreeMap.mem_toList_iff_getElem?_eq_some.mpr found)
  rw [verifyTable, gone] at checked
  cases checked

theorem verifyTables_footer (done : formats.verifyTables 0 manifest tables limits = .ok ()) :
    formats.verifyManifestTables manifest tables limits = .ok () := by
  refine forM_ok_iff.mpr fun entry held => ?_
  have checked := forM_ok_iff.mp done entry held
  unfold verifyTable at checked ⊢
  cases found : tables[entry.1]? with
  | none =>
    rw [found] at checked
    cases checked
  | some bytes =>
    rw [found] at checked
    dsimp only at checked ⊢
    by_cases sized : bytes.length = entry.2.fileSize
    · have long : sstV2FooterBytes ≤ bytes.length := by
        rw [if_neg (by simp [sized])] at checked
        obtain ⟨crc, read, _⟩ := bind_ok_iff.mp checked
        exact formats.footer_long read
      rw [if_neg (by simp [sized])] at checked
      rw [if_neg (by simp [sized, Nat.not_lt.mpr (sized ▸ long)])]
      exact checked
    · rw [if_pos (.inr sized)] at checked
      cases checked

theorem load_ok_iff {generations : BTreeMap Nat Bytes} {generation : Nat} {header : Option Nat} :
    formats.load generations tables limits generation header = .ok manifest ↔
      ∃ bytes torn, generations[generation]? = some bytes ∧ formats.decodeManifest bytes = .ok (manifest, torn) ∧
        manifest.generation = generation ∧ (∀ expected ∈ header, expected = formats.headerCrc generation) ∧
        formats.verifyManifestTables manifest tables limits = .ok () := by
  unfold load
  cases generations[generation]? with
  | none => simp [throw, throwThe, MonadExceptOf.throw]
  | some bytes =>
    constructor
    · intro done
      obtain ⟨agrees, done⟩ := guard_ok done
      obtain ⟨⟨found, torn⟩, decoded, done⟩ := bind_ok_iff.mp done
      obtain ⟨same, done⟩ := guard_ok done
      obtain ⟨_, checked, done⟩ := bind_ok_iff.mp done
      obtain rfl := Except.ok.inj done
      obtain rfl := not_not.mp same
      refine ⟨bytes, torn, rfl, decoded, rfl, fun expected given => ?_, checked⟩
      obtain rfl := Option.mem_def.mp given
      rw [Option.any_some, formats.decoded_header decoded] at agrees
      simpa [Except.toOption] using (not_not.mp (of_decide_eq_false (Bool.eq_false_of_not_eq_true agrees))).symm
    · rintro ⟨_, torn, same, decoded, rfl, named, checked⟩
      obtain rfl := Option.some.inj same
      have agrees : ¬ header.any (fun expected => (formats.manifestHeaderCrc bytes).toOption ≠ some expected) := by
        rw [formats.decoded_header decoded]
        cases header with
        | none => simp
        | some expected => simp [Except.toOption, named expected rfl]
      dsimp only
      rw [if_neg agrees, decoded]
      simp [bind, Except.bind, pure, Except.pure, checked]

theorem pointerOf_ok {pointer : ManifestMetaV2} (done : formats.pointerOf manifest = .ok pointer) :
    pointer = ⟨manifest.generation, formats.headerCrc manifest.generation⟩ := by
  obtain ⟨bytes, encoded, done⟩ := bind_ok_iff.mp done
  obtain ⟨crc, header, done⟩ := bind_ok_iff.mp done
  obtain rfl := Except.ok.inj ((formats.encoded_header encoded).symm.trans header)
  exact (Except.ok.inj done).symm

theorem verify_ok {image : StoreV2Image} (done : formats.verify image = .ok ()) : formats.decodeMeta image.metaBytes =
        .ok ⟨image.manifest.generation, formats.headerCrc image.manifest.generation⟩ ∧
      formats.decodeManifest image.manifestBytes = .ok (image.manifest, false) ∧
      formats.verifyTables 0 image.manifest image.tables codecLimits = .ok () := by
  obtain ⟨pointer, decoded, done⟩ := bind_ok_iff.mp done
  obtain ⟨⟨manifest, torn⟩, replayed, done⟩ := bind_ok_iff.mp done
  obtain ⟨whole, done⟩ := guard_ok done
  obtain ⟨same, done⟩ := guard_ok done
  obtain ⟨named, pointed, done⟩ := bind_ok_iff.mp done
  obtain ⟨agrees, done⟩ := guard_ok done
  obtain ⟨-, checked⟩ := guard_ok done
  rw [Bool.not_eq_true] at whole
  obtain rfl := not_not.mp same
  obtain rfl := not_not.mp agrees
  obtain rfl : torn = false := whole
  exact ⟨pointerOf_ok pointed ▸ decoded, replayed, checked⟩

end Formats

structure Holds (formats : Formats) (seen : Seen) (image : StoreV2Image) : Prop where
  pointer : seen.pointer = some image.metaBytes
  manifest : seen.manifests[image.manifest.generation]? = some image.manifestBytes
  tables : ∀ fileNo ∈ image.tables, seen.tables[fileNo]? = image.tables[fileNo]?
  verified : formats.verify image = .ok ()

section Images
variable {formats : Formats} {seen : Seen} {image : StoreV2Image}

theorem Holds.same_tables (held : Holds formats seen image) :
    ∀ fileNo ∈ image.manifest.files, seen.tables[fileNo]? = image.tables[fileNo]? := by
  intro fileNo named
  refine held.tables fileNo ?_
  rw [Std.ExtTreeMap.mem_iff_isSome_getElem?, Option.isSome_iff_ne_none]
  exact fun gone => Formats.verifyTables_missing named gone (Formats.verify_ok held.verified).2.2

theorem Holds.select (held : Holds formats seen image) {maxGenerations : Nat}
    (within : seen.manifests.size ≤ maxGenerations) : formats.select seen maxGenerations codecLimits =
      .ok ⟨image.manifest, false, Formats.orphanTables image.manifest seen.tables⟩ := by
  obtain ⟨decoded, replayed, checked⟩ := Formats.verify_ok held.verified
  have some_manifest : 0 < seen.manifests.size := by
    refine Nat.pos_of_ne_zero fun empty => ?_
    have none := held.manifest
    rw [Std.ExtTreeMap.eq_empty_iff_size_eq_zero.mpr empty] at none
    cases none
  have loaded : formats.load seen.manifests seen.tables codecLimits image.manifest.generation
      (some (formats.headerCrc image.manifest.generation)) = .ok image.manifest := by
    exact Formats.load_ok_iff.mpr ⟨_, _, held.manifest, replayed, rfl, fun _ same => (Option.some.inj same).symm,
      Formats.verifyTables_footer ((Formats.verifyTables_congr held.same_tables).trans checked)⟩
  unfold Formats.select Formats.selectManifestGeneration
  rw [if_neg (by omega), held.pointer]
  simp only [Option.bind_some, decoded, Except.toOption, loaded]
  rfl

theorem Holds.boot (held : Holds formats seen image) {maxGenerations : Nat}
    (within : seen.manifests.size ≤ maxGenerations) (limits : SstV2Limits) : formats.boot seen maxGenerations limits =
      formats.bootV2FileBacked image.manifestBytes image.metaBytes image.tables limits := by
  obtain ⟨decoded, replayed, -⟩ := Formats.verify_ok held.verified
  unfold Formats.boot
  rw [held.select within]
  dsimp only [bind, Except.bind]
  rw [held.manifest, held.pointer]
  have opened : formats.openTables image.manifest seen.tables limits =
      formats.openTables image.manifest image.tables limits := by
    refine mapM_congr fun entry named => ?_
    have found := Std.ExtTreeMap.mem_toList_iff_getElem?_eq_some.mp named
    rw [formats.decoded_files replayed found, held.same_tables entry.1
      (Std.ExtTreeMap.mem_iff_isSome_getElem?.mpr (by rw [found]; rfl))]
  unfold Formats.bootV2FileBacked
  simp only [replayed, bind, Except.bind, opened]

def StoreV2Image.changes (image : StoreV2Image) : List (FileId × Option Bytes) :=
  tableChanges image.tables ++ [(.manifest image.manifest.generation, some image.manifestBytes)] ++
    [(.pointer, some image.metaBytes)]

theorem Holds.publish (held : Holds formats seen image) {new : StoreV2Image}
    (generation : new.manifest.generation ≠ image.manifest.generation)
    (numbers : ∀ fileNo ∈ new.tables, fileNo ∉ image.tables) {shown : Nat}
    (early : shown < new.changes.length) : Holds formats (seen.changeAll (new.changes.take shown)) image := by
  -- what is shown without the pointer are new tables and the new manifest
  have keeps : ∀ target, (∀ fileNo ∈ new.tables, .sst fileNo ≠ target) →
      .manifest new.manifest.generation ≠ target →
      (seen.changeAll (new.changes.take shown)).find target = seen.find target := by
    intro target tables manifest
    refine changeAll_find (fun change taken => ?_) seen
    unfold StoreV2Image.changes at early taken
    rw [List.length_append, List.length_singleton] at early
    rw [List.take_append_of_le_length (Nat.le_of_lt_succ early)] at taken
    rcases List.mem_append.mp (List.mem_of_mem_take taken) with table | last
    · obtain ⟨fileNo, fresh, same⟩ := mem_tableChanges table
      exact same ▸ tables fileNo fresh
    · rw [List.mem_singleton.mp last]
      exact manifest
  exact {
    pointer := (keeps .pointer (by simp) (by simp)).trans held.pointer
    manifest := (keeps (.manifest _) (by simp) fun same => generation (FileId.manifest.inj same)).trans held.manifest
    tables := fun fileNo named => (keeps (.sst fileNo)
      (fun other fresh same => numbers other fresh (FileId.sst.inj same ▸ named)) (by simp)).trans
        (held.tables fileNo named)
    verified := held.verified }

end Images

def plainKey : InternalKey := ⟨[107], 1, .put⟩

/-- A footer without blocks before it. -/
def plainTable : Bytes :=
  let numbers := List.replicate 32 0 ++ Enc.u16 sstV2Version
  numbers ++ Enc.u32 (crc32c (numbers ++ [0, 0, 0, 0, 67, 67, 83, 84])).toNat ++ [67, 67, 83, 84]

def plainFile (fileNo : Nat) : ManifestFile :=
  ⟨0, fileNo, sstV2FooterBytes, plainKey, plainKey, takeAt 4 plainTable 34⟩

def plainBase (fileNo : Nat) : ManifestBase :=
  ⟨fileNo + 1, none, 0, none, Std.ExtTreeMap.empty.insert fileNo (plainFile fileNo)⟩

def plainManifest (generation fileNo : Nat) : ManifestV2 := ⟨plainBase fileNo, generation, [], plainBase fileNo⟩

def plainBytes (generation fileNo : Nat) : Bytes :=
  (encodeManifestV2 (plainManifest generation fileNo)).toOption.getD []

def plainPointer (generation : Nat) : Bytes := encodeMetaV2 ⟨generation, headerCrc generation⟩

/-- The blocks of a table are read as one entry. -/
def plainFormats : Formats :=
  storeFormats (fun _ _ => .ok [(plainKey, [])]) fun source _ _ =>
    (sstV2FooterCrc32c (source.getD [])).map fun crc => (source.getD [], crc)

def plainDisk : Disk :=
  ⟨⟨some (plainPointer 1), Std.ExtTreeMap.empty.insert 1 (plainBytes 1 1), Std.ExtTreeMap.empty.insert 1 plainTable⟩,
    Std.ExtTreeMap.empty⟩

end CrashCourse.Storage
