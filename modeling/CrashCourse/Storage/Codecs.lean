import CrashCourse.Core.Spans
import CrashCourse.Storage.Publication

/-!
The codecs of manifests (`CCMF`) and pointers (`CCMT`) and the footer of a table. They
meet the laws of `Formats`, whatever reads the blocks of a table.
-/

namespace CrashCourse.Storage
open CrashCourse.Core
open CrashCourse.KeyValue (ValueKind StoreWatermark)

def manifestV2Magic : Nat := leNat [67, 67, 77, 70]
def manifestV2Version : Nat := 1
def metaMagic : Nat := leNat [67, 67, 77, 84]
def metaV2Version : Nat := 2
def headerBytes : Nat := 18
def metaV2Bytes : Nat := 22
def sstV2Version : Nat := 2

/-- `take_u16`, `take_u32` and `take_u64` where the length has been checked. -/
def takeAt (width : Nat) (bytes : Bytes) (offset : Nat) : Nat := leNat ((bytes.drop offset).take width)

/-- A reader with a cursor; the state is what lies behind the cursor. -/
abbrev Cursor := StateT Bytes (Except StoreError)

def takeSlice (length : Nat) : Cursor Bytes := fun rest =>
  if rest.length < length then .error (.corrupt "manifest truncated") else .ok (rest.take length, rest.drop length)

def takeNat (width : Nat) : Cursor Nat := return leNat (← takeSlice width)

def decodeWhole {α : Type} (trailing : String) (reader : Cursor α) (body : Bytes) : Except StoreError α := do
  let (value, rest) ← reader body
  if rest ≠ [] then throw (.corrupt trailing)
  return value

def bounded (what : String) (bytes : Bytes) : Except StoreError Bytes :=
  if bytes.length > maxCodecBytes then .error (.tooLarge what bytes.length maxCodecBytes) else .ok bytes

def validateCheckpoint (checkpoint : ManifestCheckpoint) : Except StoreError Unit :=
  if checkpoint.index = 0 ∨ checkpoint.term = 0 ∨ checkpoint.generation = 0 then
    .error (.invalidInput "manifest checkpoint")
  else .ok ()

def validateWatermark (watermark : StoreWatermark) : Except StoreError Unit :=
  if watermark.index = 0 ∨ watermark.term = 0 then .error (.invalidInput "manifest watermark") else .ok ()

/-- One turn of the loop over the files; `previous` is the last file of each level. -/
def validateNext (nextFileNo : Nat) (previous : BTreeMap Nat ManifestFile) (file : ManifestFile) :
    Except StoreError (BTreeMap Nat ManifestFile) := do
  validateFile file
  if file.fileNo ≥ nextFileNo then throw (.invalidInput "manifest next file number")
  -- the ranges of level 0 may overlap
  if file.level = 0 then return previous
  if previous[file.level]?.any fun before => rangesOverlap before file then
    throw (.invalidInput "manifest level range overlap")
  return previous.insert file.level file

def validateState (manifest : ManifestV2) : Except StoreError Unit := do
  if manifest.generation = 0 ∨ manifest.nextFileNo = 0 then throw (.invalidInput "manifest next file number")
  match manifest.appliedWatermark with
  | some watermark => validateWatermark watermark
  | none => if manifest.storeSequence ≠ 0 ∨ manifest.checkpoint.isSome then
      throw (.invalidInput "manifest missing watermark")
  match manifest.checkpoint, manifest.appliedWatermark with
  | some checkpoint, watermark =>
    validateCheckpoint checkpoint
    if watermark.all fun watermark => checkpoint.index > watermark.index then
      throw (.invalidInput "manifest checkpoint watermark")
  | none, _ => pure ()
  discard <| manifest.files.values.foldlM (validateNext manifest.nextFileNo) ∅

/-! ### Writing -/

def encodeInternalKey (key : InternalKey) : Except StoreError Bytes :=
  if key.userKey.isEmpty ∨ key.userKey.length > maxCodecBytes ∨ key.sequence = 0 then
    .error (.invalidInput "manifest internal key")
  else .ok (Enc.bytes key.userKey ++ Enc.u64 key.sequence ++ Enc.u8 (match key.kind with | .put => 1 | .delete => 2))

def encodeFile (file : ManifestFile) : Except StoreError Bytes := do
  validateFile file
  return leBytes 1 file.level ++ Enc.u64 file.fileNo ++ Enc.u64 file.fileSize ++ (← encodeInternalKey file.smallest) ++
    (← encodeInternalKey file.largest) ++ Enc.u32 file.footerCrc32c

def encodeCheckpoint : Option ManifestCheckpoint → Except StoreError Bytes
  | some checkpoint => do
    validateCheckpoint checkpoint
    return Enc.u8 1 ++ Enc.u64 checkpoint.index ++ Enc.u64 checkpoint.term ++ Enc.u64 checkpoint.generation ++
      Enc.u32 checkpoint.crc32c
  | none => .ok (List.replicate 29 0)

def encodeWatermark (watermark : StoreWatermark) : Except StoreError Bytes := do
  validateWatermark watermark
  return Enc.u64 watermark.index ++ Enc.u64 watermark.term ++ Enc.u64 watermark.lastLeaderTime

def encodeSnapshot (base : ManifestBase) : Except StoreError Bytes := do
  let watermark ← match base.appliedWatermark with
    | some watermark => encodeWatermark watermark
    | none => pure (List.replicate 24 0)
  let checkpoint ← encodeCheckpoint base.checkpoint
  if base.files.size > 2 ^ 32 - 1 then throw (.tooLarge "manifest files" base.files.size (2 ^ 32 - 1))
  let files ← base.files.values.mapM encodeFile
  bounded "manifest snapshot" (Enc.u64 base.nextFileNo ++ watermark ++ Enc.u64 base.storeSequence ++ checkpoint ++
    Enc.u32 base.files.size ++ files.flatten)

def encodeEdit (edit : ManifestEditV2) : Except StoreError Bytes := do
  let (tag, body) ← match edit with
    | .addFile file => do pure ((1 : UInt8), ← encodeFile file)
    | .removeFile level fileNo => pure (2, leBytes 1 level ++ Enc.u64 fileNo)
    | .nextFileNo next => pure (3, Enc.u64 next)
    | .appliedWatermark watermark storeSequence => do
      pure (4, (← encodeWatermark watermark) ++ Enc.u64 storeSequence)
    | .checkpoint checkpoint => do pure (5, ← encodeCheckpoint checkpoint)
  let body ← bounded "manifest edit" body
  return Enc.u8 tag ++ Enc.bytes body

def encodeEditBatch (edits : List ManifestEditV2) : Except StoreError Bytes := do
  if edits.isEmpty then throw (.invalidInput "empty manifest edit batch")
  if edits.length > 2 ^ 32 - 1 then throw (.tooLarge "manifest edits" edits.length (2 ^ 32 - 1))
  bounded "manifest edit batch" (Enc.u32 edits.length ++ (← edits.mapM encodeEdit).flatten)

def appendRecord (tag : UInt8) (body : Bytes) : Except StoreError Bytes := do
  let body ← bounded "manifest record" body
  return Enc.u32 body.length ++ Enc.u32 (crc32c (tag :: body)).toNat ++ tag :: body

def ManifestV2.appendEditBatch (manifest : ManifestV2) (edits : List ManifestEditV2) :
    Except StoreError ManifestV2 := do
  let candidate ← manifest.applyEdits edits
  return { candidate with edits := candidate.edits ++ [edits] }

def headerOf (generation : Nat) : Bytes := Enc.header manifestV2Magic manifestV2Version ++ Enc.u64 generation

def headerCrc (generation : Nat) : Nat := (crc32cZeroedTail (headerOf generation ++ Enc.u32 0)).toNat

def encodeManifestV2 (manifest : ManifestV2) : Except StoreError Bytes := do
  validateState manifest
  let replayed ← manifest.edits.foldlM ManifestV2.appendEditBatch ⟨manifest.base, manifest.generation, [], manifest.base⟩
  if replayed.toManifestBase ≠ manifest.toManifestBase then
    throw (.invalidInput "manifest state is not represented by its edit tail")
  let snapshot ← appendRecord 1 (← encodeSnapshot manifest.base)
  let tail ← manifest.edits.mapM fun edits => do appendRecord 2 (← encodeEditBatch edits)
  return sealRecord (headerOf manifest.generation) ++ (snapshot ++ tail.flatten)

/-! ### Reading -/

def decodeInternalKey : Cursor InternalKey := do
  let length ← takeNat 4
  if length = 0 ∨ length > maxCodecBytes then throw (.corrupt "manifest key length")
  let userKey ← takeSlice length
  let sequence ← takeNat 8
  let kind ← match ← takeNat 1 with
    | 1 => pure ValueKind.put
    | 2 => pure .delete
    | _ => throw (.corrupt "manifest key kind")
  if sequence = 0 then throw (.corrupt "manifest key sequence")
  return ⟨userKey, sequence, kind⟩

def decodeFile : Cursor ManifestFile := do
  let file : ManifestFile :=
    ⟨← takeNat 1, ← takeNat 8, ← takeNat 8, ← decodeInternalKey, ← decodeInternalKey, ← takeNat 4⟩
  validateFile file
  return file

def decodeCheckpoint (error : String) : Cursor (Option ManifestCheckpoint) := do
  let present ← takeNat 1
  let checkpoint : ManifestCheckpoint := ⟨← takeNat 8, ← takeNat 8, ← takeNat 8, ← takeNat 4⟩
  if present = 0 ∧ checkpoint = ⟨0, 0, 0, 0⟩ then return none
  if present = 1 ∧ checkpoint.index > 0 ∧ checkpoint.term > 0 ∧ checkpoint.generation > 0 then return some checkpoint
  throw (.corrupt error)

def decodeFiles : Nat → BTreeMap Nat ManifestFile → Cursor (BTreeMap Nat ManifestFile)
  | 0, files => return files
  | count + 1, files => do
    let file ← decodeFile
    if files.contains file.fileNo then throw (.corrupt "manifest duplicate file")
    decodeFiles count (files.insert file.fileNo file)

def snapshotWatermark (watermark : StoreWatermark) : Except StoreError (Option StoreWatermark) :=
  if watermark = ⟨0, 0, 0⟩ then .ok none
  else if watermark.index > 0 ∧ watermark.term > 0 then .ok (some watermark)
  else .error (.corrupt "manifest watermark")

def readSnapshot : Cursor ManifestBase := do
  let nextFileNo ← takeNat 8
  if nextFileNo = 0 then throw (.corrupt "manifest next file number")
  let watermark : StoreWatermark := ⟨← takeNat 8, ← takeNat 8, ← takeNat 8⟩
  let storeSequence ← takeNat 8
  let applied ← snapshotWatermark watermark
  let checkpoint ← decodeCheckpoint "manifest checkpoint"
  let count ← takeNat 4
  if count > maxCodecBytes then throw (.tooLarge "manifest files" count maxCodecBytes)
  return ⟨nextFileNo, applied, storeSequence, checkpoint, ← decodeFiles count ∅⟩

def decodeSnapshot (generation : Nat) (body : Bytes) : Except StoreError ManifestV2 := do
  let base ← decodeWhole "manifest snapshot trailing bytes" readSnapshot body
  validateState ⟨base, generation, [], base⟩
  return ⟨base, generation, [], base⟩

def decodeEdit (tag : Nat) (body : Bytes) : Except StoreError ManifestEditV2 :=
  match tag, body.length with
  | 1, _ => .addFile <$> decodeWhole "manifest AddFile trailing bytes" decodeFile body
  | 2, 9 => .ok (.removeFile (takeAt 1 body 0) (takeAt 8 body 1))
  | 3, 8 => .ok (.nextFileNo (takeAt 8 body 0))
  | 4, 32 => .ok (.appliedWatermark ⟨takeAt 8 body 0, takeAt 8 body 8, takeAt 8 body 16⟩ (takeAt 8 body 24))
  | 5, 29 => (fun found => .checkpoint found.1) <$> decodeCheckpoint "manifest checkpoint edit" body
  | _, _ => .error (.corrupt "manifest edit tag")

def decodeEdits : Nat → Cursor (List ManifestEditV2)
  | 0 => return []
  | count + 1 => do
    let tag ← takeNat 1
    let length ← takeNat 4
    if length > maxCodecBytes then throw (.tooLarge "manifest edit" length maxCodecBytes)
    let edit ← decodeEdit tag (← takeSlice length)
    return edit :: (← decodeEdits count)

def decodeEditBatch : Bytes → Except StoreError (List ManifestEditV2) :=
  decodeWhole "manifest edit batch trailing bytes" do
    let count ← takeNat 4
    if count = 0 ∨ count > maxCodecBytes then throw (.corrupt "manifest edit count")
    decodeEdits count

def decodeRecord (generation : Nat) (snapshot : Option ManifestV2) (tag : Nat) (body : Bytes) :
    Except StoreError ManifestV2 :=
  match tag, snapshot with
  | 1, none => decodeSnapshot generation body
  | 1, some _ => .error (.corrupt "manifest duplicate snapshot")
  | 2, none => .error (.corrupt "manifest edit before snapshot")
  | 2, some state => do state.appendEditBatch (← decodeEditBatch body)
  | _, _ => .error (.corrupt "manifest record tag")

/-- The loop over the records, with whether the last one is torn. -/
def decodeRecords (generation : Nat) : Nat → Option ManifestV2 → Bytes → Except StoreError (Option ManifestV2 × Bool)
  | 0, snapshot, _ => .ok (snapshot, false)
  | fuel + 1, snapshot, bytes =>
    let bodyLen := takeAt 4 bytes 0
    if bytes = [] then .ok (snapshot, false)
    -- a record that is cut short ends the loop and is no error
    else if bytes.length < 9 then .ok (snapshot, true)
    else if bodyLen > maxCodecBytes then .error (.tooLarge "manifest record" bodyLen maxCodecBytes)
    else if bytes.length < 9 + bodyLen then .ok (snapshot, true)
    else if (crc32c ((bytes.drop 8).take (1 + bodyLen))).toNat ≠ takeAt 4 bytes 4 then
      .error (.corrupt "manifest record CRC")
    else do
      let state ← decodeRecord generation snapshot (takeAt 1 bytes 8) ((bytes.drop 9).take bodyLen)
      decodeRecords generation fuel (some state) (bytes.drop (9 + bodyLen))

/-- A record has nine bytes, so that as much fuel as bytes is never used up. -/
theorem decodeRecords_fuel {generation fuel : Nat} {snapshot : Option ManifestV2} {bytes : Bytes}
    (enough : bytes.length ≤ fuel) :
    decodeRecords generation (fuel + 1) snapshot bytes = decodeRecords generation fuel snapshot bytes := by
  induction fuel generalizing snapshot bytes with
  | zero =>
    obtain rfl := List.eq_nil_of_length_eq_zero (Nat.le_zero.mp enough)
    rfl
  | succ fuel ih =>
    have shorter : (bytes.drop (9 + takeAt 4 bytes 0)).length ≤ fuel := by
      rw [List.length_drop]
      omega
    rw [decodeRecords, decodeRecords]
    simp only [ih shorter]

def manifestHeaderCrc (bytes : Bytes) : Except StoreError Nat :=
  if bytes.length < headerBytes then .error (.corrupt "manifest header")
  else if (crc32cZeroedTail (bytes.take headerBytes)).toNat ≠ takeAt 4 bytes 14 then
    .error (.corrupt "manifest header CRC")
  else .ok (takeAt 4 bytes 14)

def decodeManifestV2Prefix (bytes : Bytes) : Except StoreError (ManifestV2 × Bool) := do
  if bytes.length < headerBytes then throw (.corrupt "manifest header")
  if takeAt 4 bytes 0 ≠ manifestV2Magic ∨ takeAt 2 bytes 4 ≠ manifestV2Version then throw (.corrupt "manifest format")
  if (crc32cZeroedTail (bytes.take headerBytes)).toNat ≠ takeAt 4 bytes 14 then throw (.corrupt "manifest header CRC")
  let records := bytes.drop headerBytes
  match ← decodeRecords (takeAt 8 bytes 6) records.length none records with
  | (none, _) => throw (.corrupt "manifest missing snapshot")
  | (some manifest, torn) =>
    validateState manifest
    return (manifest, torn)

def encodeMetaV2 (pointer : ManifestMetaV2) : Bytes :=
  sealRecord (Enc.header metaMagic metaV2Version ++ Enc.u64 pointer.generation ++ Enc.u32 pointer.manifestHeaderCrc32c)

def decodeMetaV2 (bytes : Bytes) : Except StoreError ManifestMetaV2 :=
  if bytes.length ≠ metaV2Bytes ∨ takeAt 4 bytes 0 ≠ metaMagic ∨ takeAt 2 bytes 4 ≠ metaV2Version then
    .error (.corrupt "META v2 format")
  else if (crc32cZeroedTail bytes).toNat ≠ takeAt 4 bytes 18 then .error (.corrupt "META v2 CRC")
  else .ok ⟨takeAt 8 bytes 6, takeAt 4 bytes 14⟩

def decodeFooter (footer : Bytes) : Except StoreError Unit :=
  if footer.length ≠ sstV2FooterBytes ∨ footer.drop 38 ≠ [67, 67, 83, 84] then .error (.corrupt "v2 SST footer")
  else if takeAt 2 footer 32 ≠ sstV2Version then .error (.corrupt "v2 SST version")
  else if (crc32c (footer.take 34 ++ [0, 0, 0, 0] ++ footer.drop 38)).toNat ≠ takeAt 4 footer 34 then
    .error (.corrupt "v2 SST footer checksum")
  else .ok ()

def sstV2FooterCrc32c (bytes : Bytes) : Except StoreError Nat := do
  if bytes.length < sstV2FooterBytes then throw (.corrupt "v2 SST footer is truncated")
  let footer := bytes.drop (bytes.length - sstV2FooterBytes)
  decodeFooter footer
  return takeAt 4 footer 34

/-! ### The laws -/

theorem leBytes_leNat (bytes : Bytes) : leBytes bytes.length (leNat bytes) = bytes := by
  induction bytes with
  | nil => rfl
  | cons byte rest ih =>
    have small : byte.toNat < 256 := byte.toNat_lt
    have low : UInt8.ofNat (byte.toNat + 256 * leNat rest) = byte := by
      apply UInt8.toNat_inj.mp
      rw [UInt8.toNat_ofNat']
      omega
    have high : (byte.toNat + 256 * leNat rest) / 256 = leNat rest := by omega
    rw [List.length_cons, leNat, leBytes, low, high, ih]

theorem leBytes_takeAt {width offset : Nat} {bytes : Bytes} (within : offset + width ≤ bytes.length) :
    leBytes width (takeAt width bytes offset) = (bytes.drop offset).take width := by
  have length : ((bytes.drop offset).take width).length = width := by simp; omega
  have written := leBytes_leNat ((bytes.drop offset).take width)
  rwa [length] at written

theorem manifestHeaderCrc_eq {bytes : Bytes} {generation : Nat} (long : headerBytes ≤ bytes.length)
    (header : bytes.take 14 = headerOf generation) (stored : takeAt 4 bytes 14 = headerCrc generation) :
    manifestHeaderCrc bytes = .ok (headerCrc generation) := by
  have cut : bytes.take headerBytes = headerOf generation ++ (bytes.drop 14).take 4 := by
    rw [← header, ← List.take_add]
    rfl
  have four : ((bytes.drop 14).take 4).length = 4 := by
    simp [headerBytes] at long ⊢
    omega
  rw [manifestHeaderCrc, if_neg (not_lt.mpr long), cut, crc32cZeroedTail_append _ four (Enc.u32_length 0), stored]
  exact if_neg (not_not.mpr rfl)

theorem manifestHeaderCrc_encoded {manifest : ManifestV2} {bytes : Bytes}
    (encoded : encodeManifestV2 manifest = .ok bytes) :
    manifestHeaderCrc bytes = .ok (headerCrc manifest.generation) := by
  obtain ⟨_, -, encoded⟩ := bind_ok_iff.mp encoded
  obtain ⟨_, -, encoded⟩ := bind_ok_iff.mp encoded
  obtain ⟨-, encoded⟩ := guard_ok encoded
  obtain ⟨_, -, encoded⟩ := bind_ok_iff.mp encoded
  obtain ⟨_, -, encoded⟩ := bind_ok_iff.mp encoded
  obtain ⟨_, -, encoded⟩ := bind_ok_iff.mp encoded
  obtain rfl := Except.ok.inj encoded
  -- the records stand behind the header and are not read
  have fourteen : (headerOf manifest.generation).length = 14 := by simp [headerOf, Enc.header]
  have small : headerCrc manifest.generation < 256 ^ 4 := BitVec.isLt _
  refine manifestHeaderCrc_eq ?_ ?_ ?_
  · simp [sealRecord, fourteen, headerBytes]
    omega
  · rw [sealRecord, List.append_assoc, List.take_append_of_le_length fourteen.ge, List.take_of_length_le fourteen.le]
  · rw [takeAt, sealRecord, List.append_assoc, List.drop_left' fourteen, List.take_append_of_le_length (by simp),
      List.take_of_length_le (by simp)]
    exact leNat_leBytes_of_lt small

section Keyed
variable {generation : Nat} {manifest after : ManifestV2} {files : BTreeMap Nat ManifestFile}

/-- The manifest has its generation, and lists each file under its own number. -/
structure Keyed (generation : Nat) (manifest : ManifestV2) : Prop where
  generation : manifest.generation = generation
  files : ∀ {fileNo : Nat} {file : ManifestFile}, manifest.files[fileNo]? = some file → file.fileNo = fileNo

theorem keyed_insert
    (keyed : ∀ {fileNo : Nat} {file : ManifestFile}, files[fileNo]? = some file → file.fileNo = fileNo)
    (added : ManifestFile) {fileNo : Nat} {file : ManifestFile}
    (found : (files.insert added.fileNo added)[fileNo]? = some file) : file.fileNo = fileNo := by
  rw [Std.ExtTreeMap.getElem?_insert] at found
  split at found
  next same =>
    obtain rfl := Option.some.inj found
    exact Std.LawfulEqCmp.eq_of_compare same
  next => exact keyed found

theorem applyEdit_keyed {edit : ManifestEditV2} (keyed : Keyed generation manifest)
    (done : manifest.applyEdit edit = .ok after) : Keyed generation after := by
  cases edit with
  | addFile file =>
    obtain ⟨_, -, done⟩ := bind_ok_iff.mp done
    obtain ⟨-, done⟩ := guard_ok done
    obtain ⟨-, done⟩ := guard_ok done
    obtain rfl := Except.ok.inj done
    exact ⟨keyed.generation, keyed_insert keyed.files file⟩
  | removeFile level fileNo =>
    unfold ManifestV2.applyEdit at done
    dsimp only at done
    split at done
    · cases done
    obtain ⟨-, done⟩ := refuse_ok_iff.mp done
    obtain rfl := Except.ok.inj done
    refine ⟨keyed.generation, fun found => ?_⟩
    rw [Std.ExtTreeMap.getElem?_erase] at found
    split at found
    · cases found
    · exact keyed.files found
  | nextFileNo next =>
    obtain ⟨-, done⟩ := refuse_ok_iff.mp done
    obtain rfl := Except.ok.inj done
    exact ⟨keyed.generation, keyed.files⟩
  | appliedWatermark watermark storeSequence =>
    obtain ⟨-, done⟩ := refuse_ok_iff.mp done
    obtain ⟨-, done⟩ := refuse_ok_iff.mp done
    obtain rfl := Except.ok.inj done
    exact ⟨keyed.generation, keyed.files⟩
  | checkpoint checkpoint =>
    cases checkpoint with
    | none =>
      obtain rfl := Except.ok.inj done
      exact ⟨keyed.generation, keyed.files⟩
    | some checkpoint =>
      obtain ⟨-, done⟩ := refuse_ok_iff.mp done
      split at done
      · cases done
      obtain ⟨-, done⟩ := refuse_ok_iff.mp done
      obtain rfl := Except.ok.inj done
      exact ⟨keyed.generation, keyed.files⟩

theorem applyAll_keyed {edits : List ManifestEditV2} (keyed : Keyed generation manifest)
    (done : edits.foldlM ManifestV2.applyEdit manifest = .ok after) : Keyed generation after := by
  induction edits generalizing manifest with
  | nil => exact Except.ok.inj done ▸ keyed
  | cons edit edits ih =>
    obtain ⟨middle, first, rest⟩ := bind_ok_iff.mp done
    exact ih (applyEdit_keyed keyed first) rest

theorem Cursor.bind_ok {α β : Type} {first : Cursor α} {second : α → Cursor β} {rest : Bytes} {found : β × Bytes}
    (done : (first >>= second) rest = .ok found) :
    ∃ middle, first rest = .ok middle ∧ second middle.1 middle.2 = .ok found := by
  change (first rest >>= fun middle => second middle.1 middle.2) = .ok found at done
  exact bind_ok_iff.mp done

theorem decodeFiles_keyed {count : Nat} {rest : Bytes} {found : BTreeMap Nat ManifestFile × Bytes}
    (keyed : ∀ {fileNo : Nat} {file : ManifestFile}, files[fileNo]? = some file → file.fileNo = fileNo)
    (done : decodeFiles count files rest = .ok found) {fileNo : Nat} {file : ManifestFile}
    (listed : found.1[fileNo]? = some file) : file.fileNo = fileNo := by
  induction count generalizing files rest with
  | zero =>
    obtain rfl := Except.ok.inj done
    exact keyed listed
  | succ count ih =>
    obtain ⟨added, -, done⟩ := Cursor.bind_ok done
    split at done
    · cases done
    · exact ih (keyed_insert keyed added.1) done

theorem readSnapshot_keyed {body : Bytes} {found : ManifestBase × Bytes} (done : readSnapshot body = .ok found)
    {fileNo : Nat} {file : ManifestFile} (listed : found.1.files[fileNo]? = some file) : file.fileNo = fileNo := by
  unfold readSnapshot at done
  -- the fields before the files
  obtain ⟨_, -, done⟩ := Cursor.bind_ok done
  split at done
  · cases done
  obtain ⟨_, -, done⟩ := Cursor.bind_ok done
  obtain ⟨_, -, done⟩ := Cursor.bind_ok done
  obtain ⟨_, -, done⟩ := Cursor.bind_ok done
  obtain ⟨_, -, done⟩ := Cursor.bind_ok done
  obtain ⟨_, -, done⟩ := Cursor.bind_ok done
  obtain ⟨_, -, done⟩ := Cursor.bind_ok done
  obtain ⟨_, -, done⟩ := Cursor.bind_ok done
  split at done
  · cases done
  obtain ⟨files, read, done⟩ := Cursor.bind_ok done
  obtain rfl := Except.ok.inj done
  exact decodeFiles_keyed (by simp) read listed

theorem decodeRecord_keyed {tag : Nat} {snapshot : Option ManifestV2} {body : Bytes}
    (keyed : ∀ manifest ∈ snapshot, Keyed generation manifest)
    (done : decodeRecord generation snapshot tag body = .ok after) : Keyed generation after := by
  unfold decodeRecord at done
  split at done
  next =>
    obtain ⟨base, whole, done⟩ := bind_ok_iff.mp done
    obtain ⟨_, -, done⟩ := bind_ok_iff.mp done
    obtain rfl := Except.ok.inj done
    obtain ⟨found, read, rest⟩ := bind_ok_iff.mp whole
    obtain ⟨-, rest⟩ := guard_ok rest
    obtain rfl := Except.ok.inj rest
    exact ⟨rfl, readSnapshot_keyed read⟩
  next => cases done
  next => cases done
  next state =>
    obtain ⟨edits, -, done⟩ := bind_ok_iff.mp done
    obtain ⟨candidate, applied, done⟩ := bind_ok_iff.mp done
    obtain rfl := Except.ok.inj done
    have whole := applyAll_keyed (keyed state rfl) (refuse_ok_iff.mp applied).2
    exact ⟨whole.generation, whole.files⟩
  next => cases done

theorem decodeRecords_keyed {fuel : Nat} {snapshot : Option ManifestV2} {bytes : Bytes}
    {found : Option ManifestV2 × Bool} (keyed : ∀ manifest ∈ snapshot, Keyed generation manifest)
    (done : decodeRecords generation fuel snapshot bytes = .ok found) :
    ∀ manifest ∈ found.1, Keyed generation manifest := by
  induction fuel generalizing snapshot bytes with
  | zero =>
    obtain rfl := Except.ok.inj done
    exact keyed
  | succ fuel ih =>
    unfold decodeRecords at done
    dsimp only at done
    split_ifs at done
    -- the end, and the two ways in which the last record is torn
    · exact Except.ok.inj done ▸ keyed
    · exact Except.ok.inj done ▸ keyed
    · exact Except.ok.inj done ▸ keyed
    obtain ⟨state, decoded, rest⟩ := bind_ok_iff.mp done
    exact ih (fun manifest here => Option.some.inj here ▸ decodeRecord_keyed keyed decoded) rest

theorem decodeManifestV2Prefix_ok {bytes : Bytes} {torn : Bool}
    (decoded : decodeManifestV2Prefix bytes = .ok (manifest, torn)) :
    manifestHeaderCrc bytes = .ok (headerCrc manifest.generation) ∧ Keyed manifest.generation manifest := by
  obtain ⟨long, decoded⟩ := guard_ok decoded
  obtain ⟨format, decoded⟩ := guard_ok decoded
  obtain ⟨stored, decoded⟩ := guard_ok decoded
  obtain ⟨⟨snapshot, tail⟩, records, decoded⟩ := bind_ok_iff.mp decoded
  cases snapshot with
  | none => cases decoded
  | some found =>
    obtain ⟨_, -, decoded⟩ := bind_ok_iff.mp decoded
    obtain ⟨rfl, rfl⟩ := Prod.mk.inj (Except.ok.inj decoded)
    have keyed := decodeRecords_keyed (by simp) records found rfl
    rw [not_lt, headerBytes] at long
    rw [not_or, not_not, not_not] at format
    refine ⟨?_, rfl, keyed.files⟩
    rw [keyed.generation]
    -- written anew from their own numbers, the first bytes are what they were
    have header : bytes.take 14 = headerOf (takeAt 8 bytes 6) := by
      rw [headerOf, Enc.header, ← format.1, ← format.2, Enc.u32, Enc.u16, Enc.u64, leBytes_takeAt (by omega),
        leBytes_takeAt (by omega), leBytes_takeAt (by omega), List.drop_zero, ← List.take_add, ← List.take_add]
    have cut : bytes.take headerBytes = headerOf (takeAt 8 bytes 6) ++ (bytes.drop 14).take 4 := by
      rw [← header, ← List.take_add]
      rfl
    refine manifestHeaderCrc_eq long header ?_
    rw [← not_not.mp stored, cut, crc32cZeroedTail_append _ (by simp; omega) (Enc.u32_length 0)]
    rfl

end Keyed

theorem sstV2FooterCrc32c_long {bytes : Bytes} {crc : Nat} (read : sstV2FooterCrc32c bytes = .ok crc) :
    sstV2FooterBytes ≤ bytes.length := not_lt.mp (guard_ok read).1

/-- The formats of the repository over any reader of the blocks of a table. -/
def storeFormats (decodeTable : Bytes → SstV2Limits → Except StoreError (List (InternalKey × Bytes)))
    (openTable : Option Bytes → Nat → SstV2Limits → Except StoreError (Bytes × Nat)) : Formats where
  decodeMeta := decodeMetaV2
  headerCrc := headerCrc
  manifestHeaderCrc := manifestHeaderCrc
  decodeManifest := decodeManifestV2Prefix
  encodeManifest := encodeManifestV2
  footerCrc := sstV2FooterCrc32c
  decodeTable := decodeTable
  openTable := openTable
  decoded_header decoded := (decodeManifestV2Prefix_ok decoded).1
  encoded_header := manifestHeaderCrc_encoded
  decoded_files decoded := (decodeManifestV2Prefix_ok decoded).2.files
  footer_long := sstV2FooterCrc32c_long

end CrashCourse.Storage
