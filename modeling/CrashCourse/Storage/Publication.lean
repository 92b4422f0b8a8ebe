import CrashCourse.KeyValue.Store

/-!
How a generation of the store is published. What a boot sees is decided by
`select_manifest_generation`; the formats of manifests (`CCMF`), pointers (`CCMT`) and
tables (`CCST`) are parameters.
-/

namespace CrashCourse.Storage
open CrashCourse.Core
open CrashCourse.KeyValue (ValueKind StoreWatermark)

/-- The texts are those of the source. -/
inductive StoreError where
  | invalidInput (reason : String)
  | tooLarge (what : String) (size max : Nat)
  | corrupt (reason : String)
  | missingTable (fileNo : Nat)
  | metaMismatch
  deriving DecidableEq, Repr

structure InternalKey where
  userKey : Bytes
  sequence : Nat
  kind : ValueKind
  deriving DecidableEq, Repr

def internalKindOrder : ValueKind → Nat
  | .delete => 0
  | .put => 1

/-- User keys ascend, and the versions of one key descend. -/
def InternalKey.cmp (left right : InternalKey) : Ordering :=
  (compare left.userKey right.userKey).then ((compare right.sequence left.sequence).then
    (compare (internalKindOrder left.kind) (internalKindOrder right.kind)))

structure ManifestFile where
  level : Nat
  fileNo : Nat
  fileSize : Nat
  smallest : InternalKey
  largest : InternalKey
  footerCrc32c : Nat
  deriving DecidableEq, Repr

structure ManifestCheckpoint where
  index : Nat
  term : Nat
  generation : Nat
  crc32c : Nat
  deriving DecidableEq, Repr

inductive ManifestEditV2 where
  | addFile (file : ManifestFile)
  | removeFile (level fileNo : Nat)
  | nextFileNo (next : Nat)
  | appliedWatermark (watermark : StoreWatermark) (storeSequence : Nat)
  | checkpoint (checkpoint : Option ManifestCheckpoint)
  deriving DecidableEq, Repr

structure ManifestBase where
  nextFileNo : Nat
  appliedWatermark : Option StoreWatermark
  storeSequence : Nat
  checkpoint : Option ManifestCheckpoint
  files : BTreeMap Nat ManifestFile
  deriving DecidableEq

structure ManifestV2 extends ManifestBase where
  generation : Nat
  edits : List (List ManifestEditV2)
  base : ManifestBase
  deriving DecidableEq

structure ManifestMetaV2 where
  generation : Nat
  manifestHeaderCrc32c : Nat
  deriving DecidableEq, Repr

def maxLevel : Nat := 7

def validateFile (file : ManifestFile) : Except StoreError Unit :=
  if file.level > maxLevel ∨ file.fileNo = 0 ∨ file.fileSize = 0 ∨ file.smallest.cmp file.largest = .gt then
    .error (.invalidInput "manifest file metadata")
  else .ok ()

def rangesOverlap (left right : ManifestFile) : Bool :=
  (compare left.smallest.userKey right.largest.userKey).isLE &&
    (compare right.smallest.userKey left.largest.userKey).isLE

namespace ManifestV2

def applyEdit (manifest : ManifestV2) : ManifestEditV2 → Except StoreError ManifestV2
  | .addFile file => do
      validateFile file
      if manifest.files.contains file.fileNo ∨ file.fileNo ≥ manifest.nextFileNo then
        throw (.corrupt "manifest file number")
      if file.level > 0 ∧ manifest.files.toList.any fun entry =>
          entry.2.level == file.level && rangesOverlap file entry.2 then
        throw (.corrupt "manifest level range overlap")
      return { manifest with files := manifest.files.insert file.fileNo file }
  | .removeFile level fileNo =>
      match manifest.files[fileNo]? with
      | none => .error (.corrupt "manifest removes missing file")
      | some existing =>
          if existing.level ≠ level then .error (.corrupt "manifest remove level")
          else .ok { manifest with files := manifest.files.erase fileNo }
  | .nextFileNo next =>
      if next ≤ manifest.nextFileNo ∨ next = 0 then .error (.corrupt "manifest next file number")
      else .ok { manifest with nextFileNo := next }
  | .appliedWatermark watermark storeSequence =>
      if watermark.index = 0 ∨ watermark.term = 0 then .error (.invalidInput "manifest watermark")
      else if manifest.appliedWatermark.any fun previous => decide (watermark.index ≤ previous.index) ||
          decide (watermark.lastLeaderTime < previous.lastLeaderTime) ||
          decide (storeSequence < manifest.storeSequence) then .error (.corrupt "manifest watermark regression")
      else .ok { manifest with appliedWatermark := some watermark, storeSequence }
  | .checkpoint none => .ok { manifest with checkpoint := none }
  | .checkpoint (some checkpoint) =>
      if checkpoint.index = 0 ∨ checkpoint.term = 0 ∨ checkpoint.generation = 0 then
        .error (.invalidInput "manifest checkpoint")
      else
        match manifest.appliedWatermark with
        | none => .error (.corrupt "manifest checkpoint without watermark")
        | some watermark =>
            if checkpoint.index > watermark.index then .error (.corrupt "manifest checkpoint watermark")
            else .ok { manifest with checkpoint := some checkpoint }

def applyEdits (manifest : ManifestV2) (edits : List ManifestEditV2) : Except StoreError ManifestV2 :=
  if edits.isEmpty then .error (.invalidInput "empty manifest edit batch") else edits.foldlM applyEdit manifest

end ManifestV2

structure SstV2Limits where
  maxKeyBytes : Nat
  maxValueBytes : Nat
  maxFileBytes : Nat
  maxEntries : Nat

def sstV2FooterBytes : Nat := 42

structure Formats where
  decodeMeta : Bytes → Except StoreError ManifestMetaV2
  headerCrc : Nat → Nat
  manifestHeaderCrc : Bytes → Except StoreError Nat
  decodeManifest : Bytes → Except StoreError (ManifestV2 × Bool)
  encodeManifest : ManifestV2 → Except StoreError Bytes
  footerCrc : Bytes → Except StoreError Nat
  decodeTable : Bytes → SstV2Limits → Except StoreError (List (InternalKey × Bytes))
  /-- `SstV2Reader::open`: the index and the bloom filter are the reader's. -/
  openTable : Option Bytes → Nat → SstV2Limits → Except StoreError (Bytes × Nat)
  decoded_header : ∀ {bytes manifest torn}, decodeManifest bytes = .ok (manifest, torn) →
    manifestHeaderCrc bytes = .ok (headerCrc manifest.generation)
  encoded_header : ∀ {manifest bytes}, encodeManifest manifest = .ok bytes →
    manifestHeaderCrc bytes = .ok (headerCrc manifest.generation)
  decoded_files : ∀ {bytes manifest torn fileNo file}, decodeManifest bytes = .ok (manifest, torn) →
    manifest.files[fileNo]? = some file → ManifestFile.fileNo file = fileNo
  footer_long : ∀ {bytes crc}, footerCrc bytes = .ok crc → sstV2FooterBytes ≤ bytes.length

structure ManifestBoot where
  manifest : ManifestV2
  usedMetaFallback : Bool
  orphanTables : List Nat

namespace Formats
variable (formats : Formats)

/-- The check of one table; a selection also asks for the length of a footer. -/
def verifyTable (least : Nat) (tables : BTreeMap Nat Bytes) (limits : SstV2Limits) (fileNo : Nat)
    (file : ManifestFile) : Except StoreError Unit := do
  match tables[fileNo]? with
  | none => throw (.missingTable fileNo)
  | some bytes =>
      if bytes.length < least ∨ bytes.length ≠ file.fileSize then
        throw (.corrupt "manifest table metadata")
      if (← formats.footerCrc bytes) ≠ file.footerCrc32c then throw (.corrupt "manifest table metadata")
      let entries ← formats.decodeTable bytes limits
      match entries.head?, entries.getLast? with
      | some smallest, some largest =>
          if smallest.1 ≠ file.smallest ∨ largest.1 ≠ file.largest then throw (.corrupt "manifest table range")
      | _, _ => throw (.corrupt "manifest empty table")

def verifyTables (least : Nat) (manifest : ManifestV2) (tables : BTreeMap Nat Bytes) (limits : SstV2Limits) :
    Except StoreError Unit :=
  manifest.files.toList.forM fun entry => formats.verifyTable least tables limits entry.1 entry.2

def verifyManifestTables := formats.verifyTables sstV2FooterBytes

def load (generations tables : BTreeMap Nat Bytes) (limits : SstV2Limits) (generation : Nat)
    (expectedHeader : Option Nat) : Except StoreError ManifestV2 := do
  match generations[generation]? with
  | none => throw (.corrupt "META target manifest missing")
  | some bytes =>
      if expectedHeader.any fun expected => (formats.manifestHeaderCrc bytes).toOption ≠ some expected then
        throw (.corrupt "META target manifest header")
      let (manifest, _) ← formats.decodeManifest bytes
      if manifest.generation ≠ generation then throw (.corrupt "manifest filename generation")
      formats.verifyManifestTables manifest tables limits
      return manifest

def orphanTables (manifest : ManifestV2) (tables : BTreeMap Nat Bytes) : List Nat :=
  tables.keys.filter fun fileNo => !manifest.files.contains fileNo

def selectManifestGeneration (metaBytes : Option Bytes) (generations tables : BTreeMap Nat Bytes)
    (maxGenerations : Nat) (limits : SstV2Limits) : Except StoreError ManifestBoot :=
  if maxGenerations = 0 ∨ generations.size > maxGenerations then
    .error (.tooLarge "manifest generations" generations.size maxGenerations)
  else
    match metaBytes.bind fun bytes => (formats.decodeMeta bytes).toOption with
    | some pointer =>
        (formats.load generations tables limits pointer.generation (some pointer.manifestHeaderCrc32c)).map
          fun manifest => ⟨manifest, false, orphanTables manifest tables⟩
    | none =>
        match generations.keys.reverse.findSome? fun generation =>
            (formats.load generations tables limits generation none).toOption with
        | some manifest => .ok ⟨manifest, true, orphanTables manifest tables⟩
        | none => .error (.corrupt "no valid manifest generation")

end Formats

inductive FileId where
  | sst (fileNo : Nat)
  | manifest (generation : Nat)
  | pointer
  | temp (sequence : Nat)
  deriving DecidableEq, Repr

inductive StorePlanStep where
  | createTemp (file : FileId)
  | write (file : FileId) (bytes : Bytes)
  | fsync (file : FileId)
  | rename (source target : FileId)
  | delete (file : FileId)
  | syncDirectory
  deriving DecidableEq, Repr

structure StorePlan where
  minStorageReader : Nat
  steps : List StorePlanStep
  deriving DecidableEq, Repr

def storageV2MinReader : Nat := 2

def publishSteps (sequence : Nat) (target : FileId) (bytes : Bytes) : List StorePlanStep :=
  [.createTemp (.temp sequence), .write (.temp sequence) bytes, .fsync (.temp sequence),
    .rename (.temp sequence) target, .syncDirectory]

/-- Both plans publish their files with consecutive temporary numbers. -/
def publishAll (overflow : String) : Nat → List (FileId × Bytes) → Except StoreError (List StorePlanStep)
  | _, [] => .ok []
  | sequence, (target, bytes) :: rest =>
      if sequence + 1 > u64Max then .error (.invalidInput overflow)
      else (publishAll overflow (sequence + 1) rest).map (publishSteps sequence target bytes ++ ·)

def compactionPublication (minStorageReader firstTempSequence : Nat) (outputs : BTreeMap Nat Bytes)
    (manifestGeneration : Nat) (manifestBytes : Bytes) (oldInputs : List (Nat × Nat)) : Except StoreError StorePlan :=
  if minStorageReader < storageV2MinReader ∨ firstTempSequence = 0 ∨ manifestGeneration = 0 ∨ outputs.isEmpty ∨
      manifestBytes.isEmpty then .error (.invalidInput "compaction publication")
  else
    (publishAll "compaction temp sequence" firstTempSequence
      (outputs.toList.map (fun output => (.sst output.1, output.2)) ++
        [(.manifest manifestGeneration, manifestBytes)])).map fun steps =>
      ⟨minStorageReader, steps ++ oldInputs.map (fun input => .delete (.sst input.2)) ++ [.syncDirectory]⟩

structure StoreV2Image where
  manifest : ManifestV2
  manifestBytes : Bytes
  metaBytes : Bytes
  tables : BTreeMap Nat Bytes
  deriving DecidableEq

def codecLimits : SstV2Limits := ⟨maxCodecBytes, maxCodecBytes, maxCodecBytes, maxCodecBytes⟩

namespace Formats
variable (formats : Formats)

def pointerOf (manifest : ManifestV2) : Except StoreError ManifestMetaV2 := do
  let bytes ← formats.encodeManifest manifest
  let crc ← formats.manifestHeaderCrc bytes
  return ⟨manifest.generation, crc⟩

def verify (image : StoreV2Image) : Except StoreError Unit := do
  let pointer ← formats.decodeMeta image.metaBytes
  let (manifest, torn) ← formats.decodeManifest image.manifestBytes
  if torn then throw (.corrupt "manifest torn final record")
  if manifest ≠ image.manifest then throw .metaMismatch
  if pointer ≠ (← formats.pointerOf manifest) then throw .metaMismatch
  if image.tables.size ≠ manifest.files.size then throw (.corrupt "manifest table set")
  formats.verifyTables 0 manifest image.tables codecLimits

def openTables (manifest : ManifestV2) (source : BTreeMap Nat Bytes) (limits : SstV2Limits) :
    Except StoreError (List (ManifestFile × Bytes)) :=
  manifest.files.toList.mapM fun entry => do
    let (reader, crc) ← formats.openTable source[entry.2.fileNo]? entry.2.fileSize limits
    if crc ≠ entry.2.footerCrc32c then throw (.corrupt "manifest table metadata")
    return (entry.2, reader)

def bootV2FileBacked (manifestBytes metaBytes : Bytes) (source : BTreeMap Nat Bytes) (limits : SstV2Limits) :
    Except StoreError (ManifestV2 × List (ManifestFile × Bytes)) := do
  let (manifest, torn) ← formats.decodeManifest manifestBytes
  if torn then throw (.corrupt "manifest torn final record")
  let pointer ← formats.decodeMeta metaBytes
  if (formats.pointerOf manifest).toOption ≠ some pointer then throw .metaMismatch
  return (manifest, ← formats.openTables manifest source limits)

end Formats

structure Seen where
  pointer : Option Bytes
  manifests : BTreeMap Nat Bytes
  tables : BTreeMap Nat Bytes

structure Disk where
  seen : Seen
  temps : BTreeMap Nat Bytes

def Formats.select (formats : Formats) (seen : Seen) (maxGenerations : Nat) (limits : SstV2Limits) :
    Except StoreError ManifestBoot :=
  formats.selectManifestGeneration seen.pointer seen.manifests seen.tables maxGenerations limits

def Formats.boot (formats : Formats) (seen : Seen) (maxGenerations : Nat) (limits : SstV2Limits) :
    Except StoreError (ManifestV2 × List (ManifestFile × Bytes)) := do
  let selected ← formats.select seen maxGenerations codecLimits
  match seen.manifests[selected.manifest.generation]?, seen.pointer with
  | some manifestBytes, some metaBytes => formats.bootV2FileBacked manifestBytes metaBytes seen.tables limits
  | _, _ => throw (.corrupt "META target manifest missing")

namespace Seen

def put (seen : Seen) : FileId → Bytes → Seen
  | .sst fileNo, bytes => { seen with tables := seen.tables.insert fileNo bytes }
  | .manifest generation, bytes => { seen with manifests := seen.manifests.insert generation bytes }
  | .pointer, bytes => { seen with pointer := some bytes }
  | .temp _, _ => seen

def remove (seen : Seen) : FileId → Seen
  | .sst fileNo => { seen with tables := seen.tables.erase fileNo }
  | .manifest generation => { seen with manifests := seen.manifests.erase generation }
  | .pointer => { seen with pointer := none }
  | .temp _ => seen

def find (seen : Seen) : FileId → Option Bytes
  | .sst fileNo => seen.tables[fileNo]?
  | .manifest generation => seen.manifests[generation]?
  | .pointer => seen.pointer
  | .temp _ => none

end Seen

namespace Disk

def find (disk : Disk) : FileId → Option Bytes
  | .temp sequence => disk.temps[sequence]?
  | file => disk.seen.find file

def put (disk : Disk) (file : FileId) (bytes : Bytes) : Disk :=
  match file with
  | .temp sequence => { disk with temps := disk.temps.insert sequence bytes }
  | file => { disk with seen := disk.seen.put file bytes }

def remove (disk : Disk) (file : FileId) : Disk :=
  match file with
  | .temp sequence => { disk with temps := disk.temps.erase sequence }
  | file => { disk with seen := disk.seen.remove file }

/-- What a durable step leaves; a rename is atomic. -/
def step (disk : Disk) : StorePlanStep → Disk
  | .createTemp file => disk.put file []
  | .write file bytes => disk.put file bytes
  | .fsync _ => disk
  | .rename source target =>
      match disk.find source with
      | none => disk
      | some bytes => (disk.remove source).put target bytes
  | .delete file => disk.remove file
  | .syncDirectory => disk

def execute (disk : Disk) (steps : List StorePlanStep) : Disk := steps.foldl step disk

end Disk

end CrashCourse.Storage
