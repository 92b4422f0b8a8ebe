import CrashCourse.Storage.Publishing

/-!
A compaction publishes its outputs and then deletes its inputs, but leaves the pointer
alone: when that still names the old generation, a boot asks for a table that is gone.
-/

namespace CrashCourse.Storage
open CrashCourse.Core

namespace ManifestV2
variable {manifest after : ManifestV2}

theorem applyEdit_removes {level fileNo : Nat} (done : manifest.applyEdit (.removeFile level fileNo) = .ok after) :
    fileNo ∈ manifest.files ∧ after.files = manifest.files.erase fileNo := by
  unfold applyEdit at done
  dsimp only at done
  cases found : manifest.files[fileNo]? with
  | none =>
    rw [found] at done
    cases done
  | some existing =>
    rw [found] at done
    dsimp only at done
    split at done
    · cases done
    · obtain rfl := Except.ok.inj done
      exact ⟨Std.ExtTreeMap.mem_iff_isSome_getElem?.mpr (by rw [found]; rfl), rfl⟩

theorem applyEdit_adds {file : ManifestFile} (done : manifest.applyEdit (.addFile file) = .ok after) :
    after.files = manifest.files.insert file.fileNo file := by
  obtain ⟨_, -, done⟩ := bind_ok_iff.mp done
  obtain ⟨-, done⟩ := guard_ok done
  obtain ⟨-, done⟩ := guard_ok done
  obtain rfl := Except.ok.inj done
  rfl

theorem applyEdit_next {next : Nat} (done : manifest.applyEdit (.nextFileNo next) = .ok after) :
    after.files = manifest.files := by
  unfold applyEdit at done
  dsimp only at done
  split at done
  · cases done
  · obtain rfl := Except.ok.inj done
    rfl

theorem removes_files {inputs : List (Nat × Nat)}
    (done : (inputs.map fun input => .removeFile input.1 input.2).foldlM applyEdit manifest = .ok after) :
    (∀ input ∈ inputs, input.2 ∈ manifest.files) ∧
      ∀ fileNo ∈ after.files, fileNo ∈ manifest.files ∧ ∀ input ∈ inputs, input.2 ≠ fileNo := by
  induction inputs generalizing manifest with
  | nil =>
    obtain rfl := Except.ok.inj done
    exact ⟨fun _ listed => absurd listed List.not_mem_nil,
      fun _ named => ⟨named, fun _ listed => absurd listed List.not_mem_nil⟩⟩
  | cons input inputs ih =>
    obtain ⟨middle, removed, done⟩ := bind_ok_iff.mp done
    obtain ⟨held, erased⟩ := applyEdit_removes removed
    obtain ⟨earlier, kept⟩ := ih done
    rw [erased] at earlier kept
    refine ⟨List.forall_mem_cons.mpr ⟨held, fun other listed => Std.ExtTreeMap.mem_of_mem_erase (earlier other listed)⟩,
      fun fileNo named => ?_⟩
    obtain ⟨before, others⟩ := kept fileNo named
    refine ⟨Std.ExtTreeMap.mem_of_mem_erase before, List.forall_mem_cons.mpr ⟨fun same => ?_, others⟩⟩
    rw [Std.ExtTreeMap.mem_erase, same] at before
    exact before.1 Std.ReflCmp.compare_self

theorem adds_files {added : List ManifestFile} (done : (added.map .addFile).foldlM applyEdit manifest = .ok after) :
    ∀ fileNo ∈ after.files, fileNo ∈ manifest.files ∨ ∃ file ∈ added, file.fileNo = fileNo := by
  induction added generalizing manifest with
  | nil =>
    obtain rfl := Except.ok.inj done
    exact fun _ named => .inl named
  | cons file added ih =>
    obtain ⟨middle, put, done⟩ := bind_ok_iff.mp done
    intro fileNo named
    rcases ih done fileNo named with before | ⟨other, listed, same⟩
    · rw [applyEdit_adds put, Std.ExtTreeMap.mem_insert] at before
      rcases before with same | before
      · exact .inr ⟨file, List.mem_cons_self .., Std.LawfulEqCmp.eq_of_compare same⟩
      · exact .inl before
    · exact .inr ⟨other, List.mem_cons_of_mem _ listed, same⟩

end ManifestV2

namespace Formats
variable {formats : Formats} {limits : SstV2Limits} {seen seen' : Seen} {maxGenerations : Nat} {manifest : ManifestV2}

def Selects (formats : Formats) (limits : SstV2Limits) (maxGenerations : Nat) (seen : Seen) (manifest : ManifestV2) :
    Prop := (formats.select seen maxGenerations limits).map ManifestBoot.manifest = .ok manifest

def pointed (formats : Formats) (seen : Seen) : Option ManifestMetaV2 :=
  seen.pointer.bind fun bytes => (formats.decodeMeta bytes).toOption

def candidate (formats : Formats) (limits : SstV2Limits) (seen : Seen) : Option ManifestV2 :=
  (formats.pointed seen).elim
    (seen.manifests.keys.reverse.findSome? fun generation =>
      (formats.load seen.manifests seen.tables limits generation none).toOption)
    fun pointer => (formats.load seen.manifests seen.tables limits pointer.generation
      (some pointer.manifestHeaderCrc32c)).toOption

theorem selects_iff : formats.Selects limits maxGenerations seen manifest ↔
    (maxGenerations ≠ 0 ∧ seen.manifests.size ≤ maxGenerations) ∧ formats.candidate limits seen = some manifest := by
  unfold Selects select selectManifestGeneration candidate
  by_cases refused : maxGenerations = 0 ∨ seen.manifests.size > maxGenerations
  · rw [if_pos refused]
    refine ⟨fun done => (by cases done), fun done => ?_⟩
    omega
  · rw [if_neg refused, and_iff_right (by omega)]
    cases named : formats.pointed seen with
    | some pointer =>
      unfold pointed at named
      rw [Option.elim_some, toOption_eq_some, named]
      dsimp only
      cases formats.load seen.manifests seen.tables limits pointer.generation (some pointer.manifestHeaderCrc32c) with
      | error error | ok found => simp [Except.map]
    | none =>
      unfold pointed at named
      rw [Option.elim_none, named]
      dsimp only
      cases seen.manifests.keys.reverse.findSome? fun generation =>
        (formats.load seen.manifests seen.tables limits generation none).toOption with
      | none => simp [Except.map]
      | some found => simp [Except.map]

theorem Selects.follows {pointer : ManifestMetaV2} (named : formats.pointed seen = some pointer)
    (selects : formats.Selects limits maxGenerations seen manifest) :
    formats.load seen.manifests seen.tables limits pointer.generation (some pointer.manifestHeaderCrc32c) =
      .ok manifest := by
  have chosen := (selects_iff.mp selects).2
  rw [candidate, named] at chosen
  exact toOption_eq_some.mp chosen

theorem Selects.on_disk (selects : formats.Selects limits maxGenerations seen manifest) :
    ∃ bytes torn, seen.manifests[manifest.generation]? = some bytes ∧
      formats.decodeManifest bytes = .ok (manifest, torn) := by
  have loaded : ∃ generation header, formats.load seen.manifests seen.tables limits generation header = .ok manifest := by
    cases named : formats.pointed seen with
    | some pointer => exact ⟨_, _, selects.follows named⟩
    | none =>
      have chosen := (selects_iff.mp selects).2
      rw [candidate, named] at chosen
      obtain ⟨generation, -, loads⟩ := List.exists_of_findSome?_eq_some chosen
      exact ⟨generation, none, toOption_eq_some.mp loads⟩
  obtain ⟨generation, header, loaded⟩ := loaded
  obtain ⟨bytes, torn, held, decoded, rfl, -⟩ := load_ok_iff.mp loaded
  exact ⟨bytes, torn, held, decoded⟩

theorem Selects.congr (selects : formats.Selects limits maxGenerations seen manifest)
    (pointer : seen'.pointer = seen.pointer) (manifests : seen'.manifests = seen.manifests)
    (tables : ∀ (generation : Nat) bytes manifest torn, seen.manifests[generation]? = some bytes →
      formats.decodeManifest bytes = .ok (manifest, torn) → ∀ fileNo ∈ manifest.files,
        seen'.tables[fileNo]? = seen.tables[fileNo]?) : formats.Selects limits maxGenerations seen' manifest := by
  have loads : ∀ generation header, (formats.load seen.manifests seen'.tables limits generation header).toOption =
      (formats.load seen.manifests seen.tables limits generation header).toOption := by
    intro generation header
    ext found
    rw [toOption_eq_some, toOption_eq_some, load_ok_iff, load_ok_iff]
    constructor
    · rintro ⟨bytes, torn, held, decoded, named, agrees, checked⟩
      exact ⟨bytes, torn, held, decoded, named, agrees,
        (verifyTables_congr (tables generation bytes found torn held decoded)).symm.trans checked⟩
    · rintro ⟨bytes, torn, held, decoded, named, agrees, checked⟩
      exact ⟨bytes, torn, held, decoded, named, agrees,
        (verifyTables_congr (tables generation bytes found torn held decoded)).trans checked⟩
  rw [selects_iff] at selects ⊢
  unfold candidate pointed at selects ⊢
  simp only [pointer, manifests, loads]
  exact selects

theorem candidate_newest {generation : Nat} (unpointed : formats.pointed seen = none)
    (held : generation ∈ seen.manifests) (newest : ∀ other ∈ seen.manifests, other ≤ generation)
    (loads : formats.load seen.manifests seen.tables limits generation none = .ok manifest) :
    formats.candidate limits seen = some manifest := by
  obtain ⟨before, after, cut⟩ := List.append_of_mem (Std.ExtTreeMap.mem_keys.mpr held)
  have order := Std.ExtTreeMap.ordered_keys (t := seen.manifests)
  rw [cut, List.pairwise_append] at order
  have last : after = [] := by
    refine List.eq_nil_iff_forall_not_mem.mpr fun other later => ?_
    have above := (List.pairwise_cons.mp order.2.1).1 other later
    have known : other ∈ seen.manifests := Std.ExtTreeMap.mem_keys.mp (by rw [cut]; simp [later])
    exact absurd (Nat.compare_eq_lt.mp above) (Nat.not_lt.mpr (newest other known))
  rw [candidate, unpointed, Option.elim_none, cut, last, List.reverse_append, List.reverse_singleton,
    List.singleton_append, List.findSome?_cons, loads]
  rfl

end Formats

theorem changeAll_ssts {changes : List (FileId × Option Bytes)}
    (tables : ∀ change ∈ changes, ∃ fileNo, change.1 = .sst fileNo) (seen : Seen) :
    (seen.changeAll changes).pointer = seen.pointer ∧ (seen.changeAll changes).manifests = seen.manifests := by
  induction changes generalizing seen with
  | nil => exact ⟨rfl, rfl⟩
  | cons change changes ih =>
    obtain ⟨⟨fileNo, named⟩, others⟩ := List.forall_mem_cons.mp tables
    obtain ⟨file, bytes⟩ := change
    obtain rfl : file = .sst fileNo := named
    cases bytes with
    | none => exact ih others (seen.remove (.sst fileNo))
    | some bytes => exact ih others (seen.put (.sst fileNo) bytes)

def deletions (inputs : List (Nat × Nat)) : List (FileId × Option Bytes) :=
  inputs.map fun input => (.sst input.2, none)

theorem changeAll_deletions (inputs : List (Nat × Nat)) (seen : Seen) (fileNo : Nat) :
    (seen.changeAll (deletions inputs)).tables[fileNo]? =
      if ∃ input ∈ inputs, input.2 = fileNo then none else seen.tables[fileNo]? := by
  induction inputs generalizing seen with
  | nil => simp [deletions, Seen.changeAll]
  | cons input inputs ih =>
    refine (ih (seen.remove (.sst input.2))).trans ?_
    simp only [List.mem_cons, exists_eq_or_imp]
    by_cases later : ∃ input ∈ inputs, input.2 = fileNo
    · rw [if_pos later, if_pos (.inr later)]
    · simp [later, Seen.remove, Std.ExtTreeMap.getElem?_erase]

/-- A compaction of the selected manifest `old`: its manifest removes the inputs and
adds outputs that no manifest names, in the newest generation. -/
structure Compaction (formats : Formats) (limits : SstV2Limits) (seen : Seen) (old : ManifestV2) where
  outputs : BTreeMap Nat Bytes
  generation : Nat
  manifestBytes : Bytes
  inputs : List (Nat × Nat)
  manifest : ManifestV2
  torn : Bool
  nextFileNo : Nat
  added : List ManifestFile
  edited : ManifestV2
  decoded : formats.decodeManifest manifestBytes = .ok (manifest, torn)
  named : manifest.generation = generation
  edits : old.applyEdits (inputs.map (fun input => .removeFile input.1 input.2) ++ .nextFileNo nextFileNo ::
    added.map .addFile) = .ok edited
  files : manifest.files = edited.files
  written : ∀ file ∈ added, file.fileNo ∈ outputs
  fresh : ∀ fileNo ∈ outputs, ∀ (other : Nat) bytes manifest torn, seen.manifests[other]? = some bytes →
    formats.decodeManifest bytes = .ok (manifest, torn) → fileNo ∉ manifest.files
  newest : ∀ other ∈ seen.manifests, other ≤ generation
  verified : formats.verifyManifestTables manifest (seen.tables.insertMany outputs.toList) limits = .ok ()

def Serves (formats : Formats) (limits : SstV2Limits) (maxGenerations : Nat) (seen : Seen) (manifest : ManifestV2)
    (tables : BTreeMap Nat Bytes) : Prop :=
  formats.Selects limits maxGenerations seen manifest ∧
    ∀ fileNo ∈ manifest.files, seen.tables[fileNo]? = tables[fileNo]?

section Compactions
variable {formats : Formats} {limits : SstV2Limits} {seen : Seen} {old : ManifestV2} {maxGenerations : Nat}

namespace Compaction

def changes (compaction : Compaction formats limits seen old) : List (FileId × Option Bytes) :=
  tableChanges compaction.outputs ++ [(.manifest compaction.generation, some compaction.manifestBytes)] ++
    deletions compaction.inputs

variable (compaction : Compaction formats limits seen old)

def published : Seen :=
  { seen with tables := seen.tables.insertMany compaction.outputs.toList
              manifests := seen.manifests.insert compaction.generation compaction.manifestBytes }

theorem shows {minStorageReader first : Nat} {plan : StorePlan}
    (planned : compactionPublication minStorageReader first compaction.outputs compaction.generation
      compaction.manifestBytes compaction.inputs = .ok plan) : Shows plan.steps compaction.changes := by
  unfold compactionPublication at planned
  split at planned
  · cases planned
  obtain ⟨steps, built, rfl⟩ := map_ok_iff.mp planned
  have published := shows_publishAll built (visible_tables (by simp [FileId.isTemp]))
  have synced : Shows [.syncDirectory] [] := shows_step fun _ => rfl
  have whole := (published.append (shows_deletes compaction.inputs)).append synced
  rw [List.append_nil, List.map_append, List.map_map] at whole
  exact whole

theorem spares (selects : formats.Selects limits maxGenerations seen old) :
    (∀ input ∈ compaction.inputs, input.2 ∈ old.files) ∧
      ∀ fileNo ∈ compaction.manifest.files, ∀ input ∈ compaction.inputs, input.2 ≠ fileNo := by
  have edits := compaction.edits
  unfold ManifestV2.applyEdits at edits
  rw [if_neg (by simp), List.foldlM_append] at edits
  obtain ⟨emptied, removed, edits⟩ := bind_ok_iff.mp edits
  obtain ⟨numbered, next, added⟩ := bind_ok_iff.mp edits
  obtain ⟨held, kept⟩ := ManifestV2.removes_files removed
  refine ⟨held, fun fileNo named input listed same => ?_⟩
  rw [compaction.files] at named
  rcases ManifestV2.adds_files added fileNo named with before | ⟨file, put, number⟩
  · rw [ManifestV2.applyEdit_next next] at before
    exact (kept fileNo before).2 input listed same
  · obtain ⟨bytes, torn, there, decoded⟩ := selects.on_disk
    have unnamed := compaction.fresh _ (compaction.written file put) _ bytes old torn there decoded
    rw [number, ← same] at unnamed
    exact unnamed (held input listed)

theorem changes_take {shown : Nat} (within : shown ≤ compaction.changes.length) :
    (∃ written, seen.changeAll (compaction.changes.take shown) =
        seen.changeAll ((tableChanges compaction.outputs).take written)) ∧ shown < compaction.changes.length ∨
      ∃ gone, seen.changeAll (compaction.changes.take shown) =
          compaction.published.changeAll (deletions (compaction.inputs.take gone)) ∧
        (shown = compaction.changes.length → compaction.inputs.take gone = compaction.inputs) := by
  have length : compaction.changes.length =
      (tableChanges compaction.outputs).length + (compaction.inputs.length + 1) := by
    simp [changes, deletions, Nat.add_comm]
  rcases Nat.lt_or_ge (tableChanges compaction.outputs).length shown with late | early
  · obtain ⟨gone, rfl⟩ := Nat.exists_eq_add_of_lt late
    refine .inr ⟨gone, ?_, fun all => List.take_of_length_le (by omega)⟩
    rw [changes, List.append_assoc, Nat.add_assoc, List.take_length_add_append, List.singleton_append,
      List.take_succ_cons, changeAll_append, changeAll_tables, deletions, ← List.map_take]
    rfl
  · exact .inl ⟨⟨shown, by rw [changes, List.append_assoc, List.take_append_of_le_length early]⟩, by omega⟩

section Selected
variable {compaction} (selects : formats.Selects limits maxGenerations seen old)
include selects

theorem old_spares {fileNo : Nat} (named : fileNo ∈ old.files) : fileNo ∉ compaction.outputs := by
  intro output
  obtain ⟨bytes, torn, there, decoded⟩ := selects.on_disk
  exact compaction.fresh fileNo output _ bytes old torn there decoded named

theorem serves_early (written : Nat) :
    Serves formats limits maxGenerations (seen.changeAll ((tableChanges compaction.outputs).take written)) old
      seen.tables := by
  have tables : ∀ change ∈ (tableChanges compaction.outputs).take written,
      ∃ fileNo ∈ compaction.outputs, change.1 = .sst fileNo :=
    fun change taken => mem_tableChanges (List.mem_of_mem_take taken)
  obtain ⟨pointer, manifests⟩ := changeAll_ssts
    (fun change taken => (tables change taken).imp fun fileNo found => found.2) seen
  have spared : ∀ fileNo, fileNo ∉ compaction.outputs →
      (seen.changeAll ((tableChanges compaction.outputs).take written)).tables[fileNo]? = seen.tables[fileNo]? := by
    intro fileNo other
    change Seen.find _ (.sst fileNo) = seen.find (.sst fileNo)
    refine changeAll_find (fun change taken same => ?_) seen
    obtain ⟨number, output, named⟩ := tables change taken
    exact other (FileId.sst.inj (named.symm.trans same) ▸ output)
  refine ⟨selects.congr pointer manifests fun generation bytes manifest torn held decoded fileNo named =>
    spared fileNo fun output => compaction.fresh fileNo output generation bytes manifest torn held decoded named,
    fun fileNo named => spared fileNo (old_spares selects named)⟩

/-! After the manifest, with some inputs gone. -/

section Late
variable {gone : List (Nat × Nat)}

omit selects in
theorem late_seen : (compaction.published.changeAll (deletions gone)).pointer = seen.pointer ∧
    (compaction.published.changeAll (deletions gone)).manifests =
      seen.manifests.insert compaction.generation compaction.manifestBytes := by
  refine changeAll_ssts (fun change listed => ?_) _
  obtain ⟨input, -, rfl⟩ := List.mem_map.mp listed
  exact ⟨input.2, rfl⟩

omit selects in
theorem late_pointed : formats.pointed (compaction.published.changeAll (deletions gone)) = formats.pointed seen := by
  rw [Formats.pointed, late_seen.1, Formats.pointed]

theorem serves_new (removed : ∀ input ∈ gone, input ∈ compaction.inputs)
    (room : (seen.manifests.insert compaction.generation compaction.manifestBytes).size ≤ maxGenerations)
    (unpointed : ∀ pointer, formats.pointed seen = some pointer → pointer.generation = compaction.generation) :
    Serves formats limits maxGenerations (compaction.published.changeAll (deletions gone)) compaction.manifest
      (seen.tables.insertMany compaction.outputs.toList) := by
  have tables : ∀ fileNo ∈ compaction.manifest.files,
      (compaction.published.changeAll (deletions gone)).tables[fileNo]? =
        (seen.tables.insertMany compaction.outputs.toList)[fileNo]? := by
    intro fileNo named
    rw [changeAll_deletions, if_neg]
    · rfl
    · rintro ⟨input, listed, same⟩
      exact (compaction.spares selects).2 fileNo named input (removed input listed) same
  have loads : ∀ header : Option Nat, (∀ expected ∈ header, expected = formats.headerCrc compaction.generation) →
      formats.load (compaction.published.changeAll (deletions gone)).manifests
        (compaction.published.changeAll (deletions gone)).tables limits compaction.generation header =
          .ok compaction.manifest := by
    intro header agrees
    refine Formats.load_ok_iff.mpr ⟨_, _, ?_, compaction.decoded, compaction.named, agrees,
      (Formats.verifyTables_congr tables).trans compaction.verified⟩
    rw [late_seen.2, Std.ExtTreeMap.getElem?_insert_self]
  refine ⟨Formats.selects_iff.mpr ⟨⟨(Formats.selects_iff.mp selects).1.1, by rw [late_seen.2]; exact room⟩, ?_⟩, tables⟩
  cases named : formats.pointed seen with
  | none =>
    refine Formats.candidate_newest (late_pointed.trans named) ?_ (fun other held => ?_) (loads none (by simp))
    · rw [late_seen.2]
      exact Std.ExtTreeMap.mem_insert_self
    · rw [late_seen.2, Std.ExtTreeMap.mem_insert] at held
      rcases held with same | before
      · exact (Std.LawfulEqCmp.eq_of_compare same).ge
      · exact compaction.newest other before
  | some pointer =>
    obtain ⟨_, _, -, -, -, agrees, -⟩ := Formats.load_ok_iff.mp (selects.follows named)
    rw [unpointed pointer named] at agrees
    rw [Formats.candidate, late_pointed, named, Option.elim_some, unpointed pointer named]
    exact toOption_eq_some.mpr (loads _ agrees)

section Pointed
variable {pointer : ManifestMetaV2} (named : formats.pointed seen = some pointer)
  (other : pointer.generation ≠ compaction.generation)
include named other

omit selects named in
theorem late_manifest : (compaction.published.changeAll (deletions gone)).manifests[pointer.generation]? =
    seen.manifests[pointer.generation]? := by
  rw [late_seen.2, Std.ExtTreeMap.getElem?_insert, if_neg]
  exact fun same => other (Std.LawfulEqCmp.eq_of_compare same).symm

theorem dangles {input : Nat × Nat} (deleted : input ∈ gone) (listed : input ∈ compaction.inputs)
    {manifest : ManifestV2} :
    ¬ formats.Selects limits maxGenerations (compaction.published.changeAll (deletions gone)) manifest := by
  intro after
  obtain ⟨bytes, torn, held, decoded, -, -, checked⟩ :=
    Formats.load_ok_iff.mp (after.follows (late_pointed.trans named))
  obtain ⟨bytes', torn', held', decoded', -, -, -⟩ := Formats.load_ok_iff.mp (selects.follows named)
  rw [late_manifest other, held', Option.some.injEq] at held
  rw [held, decoded] at decoded'
  obtain ⟨rfl, -⟩ := Prod.mk.inj (Except.ok.inj decoded')
  refine Formats.verifyTables_missing ((compaction.spares selects).1 input listed) ?_ checked
  rw [changeAll_deletions, if_pos ⟨input, deleted, rfl⟩]

theorem serves_pointed
    (room : (seen.manifests.insert compaction.generation compaction.manifestBytes).size ≤ maxGenerations) :
    Serves formats limits maxGenerations (compaction.published.changeAll (deletions [])) old seen.tables := by
  have tables : ∀ fileNo ∈ old.files,
      (compaction.published.changeAll (deletions [])).tables[fileNo]? = seen.tables[fileNo]? := by
    intro fileNo held
    refine Std.ExtTreeMap.getElem?_insertMany_list_of_contains_eq_false ?_
    rw [Std.ExtTreeMap.map_fst_toList_eq_keys, List.contains_eq_mem, decide_eq_false_iff_not, Std.ExtTreeMap.mem_keys]
    exact old_spares selects held
  obtain ⟨bytes, torn, held, decoded, same, agrees, checked⟩ := Formats.load_ok_iff.mp (selects.follows named)
  refine ⟨Formats.selects_iff.mpr ⟨⟨(Formats.selects_iff.mp selects).1.1, by rw [late_seen.2]; exact room⟩, ?_⟩, tables⟩
  rw [Formats.candidate, late_pointed, named, Option.elim_some, toOption_eq_some, Formats.load_ok_iff]
  exact ⟨bytes, torn, (late_manifest other).trans held, decoded, same, agrees,
    (Formats.verifyTables_congr tables).trans checked⟩

end Pointed
end Late
end Selected
end Compaction

/-- Every crash leaves the tables of the selected manifest, exactly if no pointer
names another generation when inputs are deleted, and the new manifest fits. -/
theorem compaction_is_crash_safe_iff {disk : Disk} {old : ManifestV2}
    (compaction : Compaction formats limits disk.seen old)
    (selects : formats.Selects limits maxGenerations disk.seen old) {minStorageReader first : Nat} {plan : StorePlan}
    (planned : compactionPublication minStorageReader first compaction.outputs compaction.generation
      compaction.manifestBytes compaction.inputs = .ok plan) :
    (∀ count, Serves formats limits maxGenerations (disk.execute (plan.steps.take count)).seen old disk.seen.tables ∨
      Serves formats limits maxGenerations (disk.execute (plan.steps.take count)).seen compaction.manifest
        (disk.seen.tables.insertMany compaction.outputs.toList)) ↔
    (disk.seen.manifests.insert compaction.generation compaction.manifestBytes).size ≤ maxGenerations ∧
      (compaction.inputs = [] ∨ ∀ pointer, formats.pointed disk.seen = some pointer →
        pointer.generation = compaction.generation) := by
  have shows := compaction.shows planned
  constructor
  · intro safe
    obtain ⟨shown, within, seen, whole⟩ := shows disk plan.steps.length
    have after : ∃ manifest, formats.Selects limits maxGenerations
        (compaction.published.changeAll (deletions compaction.inputs)) manifest := by
      rcases compaction.changes_take within with ⟨-, early⟩ | ⟨gone, late, all⟩
      · exact absurd (whole le_rfl) early.ne
      · rw [← all (whole le_rfl), ← late, ← seen]
        rcases safe plan.steps.length with before | after
        · exact ⟨_, before.1⟩
        · exact ⟨_, after.1⟩
    obtain ⟨manifest, after⟩ := after
    refine ⟨?_, ?_⟩
    · have size := (Formats.selects_iff.mp after).1.2
      rw [Compaction.late_seen.2] at size
      exact size
    · refine or_iff_not_imp_left.mpr fun deletes pointer named => by_contra fun other => ?_
      obtain ⟨input, listed⟩ := List.exists_mem_of_ne_nil _ deletes
      exact Compaction.dangles selects named other listed listed after
  · rintro ⟨room, spared⟩ count
    obtain ⟨shown, within, seen, -⟩ := shows disk count
    rw [seen]
    rcases compaction.changes_take within with ⟨⟨written, early⟩, -⟩ | ⟨gone, late, -⟩
    · rw [early]
      exact .inl (Compaction.serves_early selects written)
    rw [late]
    have removed : ∀ input ∈ compaction.inputs.take gone, input ∈ compaction.inputs :=
      fun input taken => List.mem_of_mem_take taken
    by_cases unpointed : ∀ pointer, formats.pointed disk.seen = some pointer →
        pointer.generation = compaction.generation
    · exact .inr (Compaction.serves_new selects removed room unpointed)
    · obtain ⟨pointer, named, other⟩ : ∃ pointer, formats.pointed disk.seen = some pointer ∧
          pointer.generation ≠ compaction.generation := by simpa using unpointed
      rw [spared.resolve_right unpointed, List.take_nil]
      exact .inl (Compaction.serves_pointed selects named other room)

end Compactions

/-- Table 2 replaces table 1, in a manifest of the given generation. -/
def plainCompaction (generation : Nat) (later : 1 ≤ generation)
    (decoded : decodeManifestV2Prefix (plainBytes generation 2) = .ok (plainManifest generation 2, false)) :
    Compaction plainFormats codecLimits plainDisk.seen (plainManifest 1 1) where
  outputs := Std.ExtTreeMap.empty.insert 2 plainTable
  generation := generation
  manifestBytes := plainBytes generation 2
  inputs := [(0, 1)]
  manifest := plainManifest generation 2
  torn := false
  nextFileNo := 3
  added := [plainFile 2]
  edited := { plainManifest 1 1 with nextFileNo := 3, files := Std.ExtTreeMap.empty.insert 2 (plainFile 2) }
  decoded := decoded
  named := rfl
  edits := by decide +kernel
  files := rfl
  written := by simp [plainFile, Std.ExtTreeMap.mem_insert]
  fresh := by
    intro fileNo output other bytes manifest torn held decoded
    simp only [Std.ExtTreeMap.mem_insert] at output
    rw [plainDisk, Std.ExtTreeMap.getElem?_insert] at held
    split at held
    · obtain rfl := Option.some.inj held
      have first : plainFormats.decodeManifest (plainBytes 1 1) = .ok (plainManifest 1 1, false) := by decide +kernel
      rw [first] at decoded
      obtain ⟨rfl, -⟩ := Prod.mk.inj (Except.ok.inj decoded)
      simp_all [plainManifest, plainBase, Std.ExtTreeMap.mem_insert]
      omega
    · cases held
  newest := by
    intro other held
    simp_all [plainDisk, Std.ExtTreeMap.mem_insert]
  verified := by
    have verified : plainFormats.verifyManifestTables (plainManifest 1 2) (plainDisk.seen.tables.insertMany
      (Std.ExtTreeMap.empty.insert 2 plainTable : BTreeMap Nat Bytes).toList) codecLimits = .ok () := by
      decide +kernel
    exact verified

/-- The pointer still names generation 1, whose only table is gone. -/
theorem compaction_dangles : plainFormats.Selects codecLimits 8 plainDisk.seen (plainManifest 1 1) ∧
      (compactionPublication 2 1 (plainCompaction 2 (by decide) (by decide +kernel)).outputs 2 (plainBytes 2 2)
        [(0, 1)]).map (fun plan => (plainFormats.select (plainDisk.execute plan.steps).seen 8 codecLimits).map
          ManifestBoot.manifest) = .ok (.error (.missingTable 1)) := by
  unfold Formats.Selects
  decide +kernel

def plainReplacement : Compaction plainFormats codecLimits plainDisk.seen (plainManifest 1 1) :=
  plainCompaction 1 le_rfl (by decide +kernel)

/-- A manifest that takes the place of the one that the pointer names. -/
theorem plain_compaction_is_crash_safe :
    ∃ plan, compactionPublication 2 1 plainReplacement.outputs plainReplacement.generation
        plainReplacement.manifestBytes plainReplacement.inputs = .ok plan ∧
      ∀ count, Serves plainFormats codecLimits 8 (plainDisk.execute (plan.steps.take count)).seen
          (plainManifest 1 1) plainDisk.seen.tables ∨
        Serves plainFormats codecLimits 8 (plainDisk.execute (plan.steps.take count)).seen
          plainReplacement.manifest (plainDisk.seen.tables.insertMany plainReplacement.outputs.toList) := by
  have selects : plainFormats.Selects codecLimits 8 plainDisk.seen (plainManifest 1 1) := by
    unfold Formats.Selects
    decide +kernel
  have pointed : plainFormats.pointed plainDisk.seen = some ⟨1, headerCrc 1⟩ := by decide +kernel
  obtain ⟨plan, planned⟩ : ∃ plan, compactionPublication 2 1 plainReplacement.outputs plainReplacement.generation
      plainReplacement.manifestBytes plainReplacement.inputs = .ok plan := isOk_iff.mp (by decide +kernel)
  refine ⟨plan, planned, (compaction_is_crash_safe_iff plainReplacement selects planned).mpr
    ⟨by decide +kernel, .inr fun pointer named => ?_⟩⟩
  obtain rfl := Option.some.inj (pointed.symm.trans named)
  rfl

end CrashCourse.Storage
