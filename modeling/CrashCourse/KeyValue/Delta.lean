import CrashCourse.Core.Spans
import CrashCourse.KeyValue.State

/-!
The record that makes one applied entry durable: what changed in the store, framed
for its write-ahead log.
-/

namespace CrashCourse.KeyValue
open CrashCourse.Core

inductive StoreEntryKind where
  | app | config | noop
  deriving DecidableEq, Repr

def StoreEntryKind.code : StoreEntryKind → UInt8
  | app => 1
  | config => 2
  | noop => 3

inductive StoreMutation where
  | put (key value : Bytes)
  | delete (key : Bytes)
  deriving DecidableEq, Repr

inductive StoreMetadataEdit where
  | upsert (namespaceCode : UInt8) (key value : Bytes)
  | delete (namespaceCode : UInt8) (key : Bytes)
  deriving DecidableEq, Repr

structure StoreApplyBatch where
  entryKind : StoreEntryKind
  watermark : StoreWatermark
  mutations : List StoreMutation
  metadata : List StoreMetadataEdit
  canonicalCommand : Bytes
  cachedReply : Bytes
  deriving DecidableEq

namespace StoreMutation

def key : StoreMutation → Bytes
  | put key _ => key
  | delete key => key

def value : StoreMutation → Bytes
  | put _ value => value
  | delete _ => []

def encode : StoreMutation → Bytes
  | put key value => Enc.u8 1 ++ Enc.bytes key ++ Enc.bytes value
  | delete key => Enc.u8 2 ++ Enc.bytes key

end StoreMutation

namespace StoreMetadataEdit

def namespaceCode : StoreMetadataEdit → UInt8
  | upsert code _ _ => code
  | delete code _ => code

def key : StoreMetadataEdit → Bytes
  | upsert _ key _ => key
  | delete _ key => key

def value : StoreMetadataEdit → Bytes
  | upsert _ _ value => value
  | delete _ _ => []

def encode : StoreMetadataEdit → Bytes
  | upsert code key value => Enc.u8 1 ++ Enc.u8 code ++ Enc.bytes key ++ Enc.bytes value
  | delete code key => Enc.u8 2 ++ Enc.u8 code ++ Enc.bytes key

end StoreMetadataEdit

-- `CCSW`, read as a little-endian `u32`.
def storeWalMagic : Nat := leNat [0x43, 0x43, 0x53, 0x57]

def u32Max : Nat := 2 ^ 32 - 1

namespace StoreApplyBatch

/-- `Enc::bytes` asserts that none of them is longer than the codec allows. -/
def fields (batch : StoreApplyBatch) : List Bytes :=
  batch.mutations.flatMap (fun mutation => [mutation.key, mutation.value]) ++
    batch.metadata.flatMap (fun edit => [edit.key, edit.value]) ++
    [batch.canonicalCommand, batch.cachedReply]

def panics (batch : StoreApplyBatch) : Bool :=
  batch.fields.any fun field => decide (field.length > maxCodecBytes)

def record (batch : StoreApplyBatch) : Bytes :=
  Enc.header storeWalMagic 2
    ++ Enc.u8 batch.entryKind.code
    ++ Enc.u64 batch.watermark.index
    ++ Enc.u64 batch.watermark.term
    ++ Enc.u64 batch.watermark.lastLeaderTime
    ++ Enc.u32 batch.mutations.length
    ++ batch.mutations.flatMap StoreMutation.encode
    ++ Enc.u32 batch.metadata.length
    ++ batch.metadata.flatMap StoreMetadataEdit.encode
    ++ Enc.bytes batch.canonicalCommand
    ++ Enc.bytes batch.cachedReply

def encode (batch : StoreApplyBatch) : Except StoreError Bytes :=
  if batch.mutations.length > u32Max then
    .error (.tooLarge "store apply mutation count" batch.mutations.length u32Max)
  else if batch.metadata.length > u32Max then
    .error (.tooLarge "store metadata edit count" batch.metadata.length u32Max)
  else .ok batch.record

def frame (batch : StoreApplyBatch) : Except StoreError Bytes := do
  let payload ← batch.encode
  if payload.length > u32Max then throw (.tooLarge "store WAL record" payload.length u32Max)
  return Enc.u32 payload.length ++ Enc.u32 (crc32c payload).toNat ++ payload

end StoreApplyBatch

namespace Store

def validateMutation (store : Store) (mutation : StoreMutation) : Except StoreError Unit :=
  if mutation.key.isEmpty || decide (mutation.key.length > store.config.maxKeyBytes) then
    .error (.invalidInput "store apply key")
  else if mutation.value.length > store.config.maxValueBytes then
    .error (.tooLarge "store apply value" mutation.value.length store.config.maxValueBytes)
  else .ok ()

def validateEdit (seen : BTreeSet (UInt8 × Bytes)) (edit : StoreMetadataEdit) :
    Except StoreError (BTreeSet (UInt8 × Bytes)) :=
  if edit.namespaceCode = 0 ∨ edit.key.isEmpty ∨ edit.key.length > maxCodecBytes then
    .error (.invalidInput "store metadata key")
  else if edit.value.length > maxCodecBytes then
    .error (.tooLarge "store metadata value" edit.value.length maxCodecBytes)
  else if seen.contains (edit.namespaceCode, edit.key) then
    .error (.invalidInput "duplicate store metadata edit")
  else .ok (seen.insert (edit.namespaceCode, edit.key))

def validateApplyBatch (store : Store) (batch : StoreApplyBatch) : Except StoreError Unit := do
  if batch.watermark.index = 0 ∨ batch.watermark.term = 0 then
    throw (.invalidInput "store apply watermark")
  if store.appliedWatermark.any fun previous =>
      decide (batch.watermark.index ≤ previous.index) ||
        decide (batch.watermark.lastLeaderTime < previous.lastLeaderTime) then
    throw (.invalidInput "store watermark regression")
  batch.mutations.forM store.validateMutation
  let _ ← batch.metadata.foldlM validateEdit ∅
  if batch.canonicalCommand.length > maxCodecBytes ∨ batch.cachedReply.length > maxCodecBytes then
    throw (.tooLarge "store apply receipt"
      (saturatingAdd batch.canonicalCommand.length batch.cachedReply.length) maxCodecBytes)
  if store.nextSequence + batch.mutations.length > u64Max then
    throw (.invalidInput "store sequence overflow")

def mutate (state : BTreeMap Bytes (Nat × Bytes) × Nat) (mutation : StoreMutation) :
    BTreeMap Bytes (Nat × Bytes) × Nat :=
  let sequence := saturatingAdd state.2 1
  (match mutation with
    | .put key value => state.1.insert key (sequence, value)
    | .delete key => state.1.erase key, sequence)

def editMetadata (metadata : BTreeMap (UInt8 × Bytes) Bytes) :
    StoreMetadataEdit → BTreeMap (UInt8 × Bytes) Bytes
  | .upsert code key value => metadata.insert (code, key) value
  | .delete code key => metadata.erase (code, key)

/-- A frozen memtable is flushed first, which does not change what the state machine
sees. -/
def applyBatch (store : Store) (batch : StoreApplyBatch) : Except StoreError Store :=
  match store.validateApplyBatch batch with
  | .error error => .error error
  | .ok _ =>
    match batch.encode with
    | .error error => .error error
    | .ok _ =>
      match walAppend store.config batch.record.length with
      | .error error => .error error
      | .ok _ =>
        .ok { store with
          live := (batch.mutations.foldl mutate (store.live, store.nextSequence)).1
          nextSequence := (batch.mutations.foldl mutate (store.live, store.nextSequence)).2
          metadata := batch.metadata.foldl editMetadata store.metadata
          appliedWatermark := some batch.watermark }

end Store

variable {batch : StoreApplyBatch} {store next : Store}

def edited {α β : Type} [DecidableEq α] (old new : Option α) (put : α → β) (delete : β) : Option β :=
  match old, new with
  | some left, some right => if left = right then none else some (put right)
  | none, some right => some (put right)
  | some _, none => some delete
  | none, none => none

def unionKeys {κ ν μ : Type} [Ord κ] [Std.TransOrd κ] (before : BTreeMap κ ν) (after : BTreeMap κ μ) : List κ :=
  (Std.ExtTreeSet.ofList (before.keys ++ after.keys) compare).toList

theorem mem_unionKeys {κ ν μ : Type} [DecidableEq κ] [Ord κ] [Std.TransOrd κ] [Std.LawfulEqOrd κ]
    {before : BTreeMap κ ν} {after : BTreeMap κ μ} {key : κ} :
    key ∈ unionKeys before after ↔ key ∈ before ∨ key ∈ after := by
  rw [unionKeys, Std.ExtTreeSet.mem_toList, Std.ExtTreeSet.mem_ofList, List.contains_iff_mem,
    List.mem_append, Std.ExtTreeMap.mem_keys, Std.ExtTreeMap.mem_keys]

def Store.mutationsTo (store next : Store) : List StoreMutation :=
  (unionKeys store.live next.live).filterMap fun key =>
    edited (store.get key) (next.get key) (.put key) (.delete key)

theorem edited_none {α β : Type} [DecidableEq α] {old new : Option α} {put : α → β} {delete : β}
    (unchanged : edited old new put delete = none) : old = new := by
  cases old <;> cases new <;> simp_all [edited]

theorem edited_some {α β : Type} [DecidableEq α] {old new : Option α} {put : α → β} {delete edit : β}
    (changed : edited old new put delete = some edit) :
    old ≠ new ∧ ((∃ value, new = some value ∧ put value = edit) ∨ new = none ∧ delete = edit) := by
  cases old <;> cases new <;> simp_all [edited]

theorem Store.get_foldl_mutate {keys : List Bytes} {key : Bytes} {state : BTreeMap Bytes (Nat × Bytes) × Nat} :
    ((keys.filterMap fun key => edited (store.get key) (next.get key) (.put key) (.delete key)).foldl
        Store.mutate state).1[key]?.map Prod.snd =
      if key ∈ keys ∧ store.get key ≠ next.get key then next.get key
      else state.1[key]?.map Prod.snd := by
  induction keys generalizing state with
  | nil => simp
  | cons first rest ih =>
    rw [List.filterMap_cons]
    cases edit : edited (store.get first) (next.get first) (StoreMutation.put first)
        (.delete first) with
    | none =>
      have same : store.get first = next.get first := edited_none edit
      dsimp only
      rw [ih]
      by_cases here : key = first
      · subst here
        simp [same]
      · simp [here]
    | some mutation =>
      obtain ⟨different, written⟩ := edited_some edit
      dsimp only
      rw [List.foldl_cons, ih]
      have own : (Store.mutate state mutation).1[first]?.map Prod.snd = next.get first ∧
          ∀ other ≠ first, (Store.mutate state mutation).1[other]? = state.1[other]? := by
        rcases written with ⟨value, found, rfl⟩ | ⟨found, rfl⟩
        · refine ⟨by simp [Store.mutate, found], fun other away => ?_⟩
          simp [Store.mutate, Std.ExtTreeMap.getElem?_insert, away.symm]
        · refine ⟨by simp [Store.mutate, found], fun other away => ?_⟩
          simp [Store.mutate, Std.ExtTreeMap.getElem?_erase, away.symm]
      by_cases here : key = first
      · subst here
        simp [different, own.1]
      · simp [here, own.2 key here]

theorem Store.applyBatch_ok (done : store.applyBatch batch = .ok next) :
    next.live = (batch.mutations.foldl Store.mutate (store.live, store.nextSequence)).1 ∧
      next.config = store.config ∧ next.appliedWatermark = some batch.watermark := by
  unfold Store.applyBatch at done
  split at done
  · cases done
  split at done
  · cases done
  · split at done
    · cases done
    · obtain rfl := Except.ok.inj done
      exact ⟨rfl, rfl, rfl⟩

theorem Store.applyBatch_get {working : Store} (changes : batch.mutations = store.mutationsTo working)
    (done : store.applyBatch batch = .ok next) (key : Bytes) : next.get key = working.get key := by
  rw [Store.get, (applyBatch_ok done).1, changes, Store.mutationsTo, get_foldl_mutate]
  split
  · rfl
  next untouched =>
    rw [not_and, not_not] at untouched
    by_cases listed : key ∈ unionKeys store.live working.live
    · exact untouched listed
    · rw [mem_unionKeys, not_or] at listed
      unfold Store.get
      rw [Std.ExtTreeMap.getElem?_eq_none listed.1, Std.ExtTreeMap.getElem?_eq_none listed.2]

theorem Store.contains_of_get {key : Bytes} (same : next.get key = store.get key) :
    next.live.contains key = store.live.contains key := by
  unfold Store.get at same
  have held := congrArg Option.isSome same
  rw [Option.isSome_map, Option.isSome_map, Std.ExtTreeMap.isSome_getElem?_eq_contains,
    Std.ExtTreeMap.isSome_getElem?_eq_contains] at held
  exact held

namespace Kv

def withStore (kv : Kv) (store : Store)
    (same : ∀ key, store.live.contains key = kv.store.live.contains key) : Kv :=
  { kv with
    store := store
    stored := fun key held => (same key).trans (kv.stored key held) }

/-- `prepare_apply` on the store before an entry: the frame for the host, and the
state machine to publish once it is durable. -/
def prepareApply (base working : Kv) (batch : StoreApplyBatch)
    (changes : batch.mutations = base.store.mutationsTo working.store) :
    Except StoreError (Bytes × Kv) :=
  match batch.frame with
  | .error error => .error error
  | .ok frame =>
    match done : base.store.applyBatch batch with
    | .error error => .error error
    | .ok next =>
      .ok (frame, working.withStore next fun key =>
        Store.contains_of_get (Store.applyBatch_get changes done key))

theorem prepareApply_ok {base working kv : Kv} {batch : StoreApplyBatch} {frame : Bytes}
    {changes : batch.mutations = base.store.mutationsTo working.store}
    (done : base.prepareApply working batch changes = .ok (frame, kv)) :
    ∃ next, base.store.applyBatch batch = .ok next ∧ ∃ same, kv = working.withStore next same := by
  unfold prepareApply at done
  split at done
  · cases done
  split at done
  · cases done
  next next applied =>
    obtain ⟨-, rfl⟩ := Prod.mk.inj (Except.ok.inj done)
    exact ⟨next, applied, _, rfl⟩

def ttlNamespace : UInt8 := 1
def legacySessionNamespace : UInt8 := 2

def encodeSession (session : Session) : Bytes :=
  Enc.u64 session.lastSeq ++ Enc.u64 session.lastActive ++ Enc.bytes (encodeReply session.cached)

def storeDelta (kv next : Kv) : List StoreMutation × List StoreMetadataEdit :=
  (kv.store.mutationsTo next.store,
    ((unionKeys kv.ttl next.ttl).filterMap fun key =>
      edited kv.ttl[key]? next.ttl[key]? (fun deadline => .upsert ttlNamespace key (Enc.u64 deadline))
        (.delete ttlNamespace key)) ++
    (unionKeys kv.sessions next.sessions).filterMap fun client =>
      edited kv.sessions[client]? next.sessions[client]?
        (fun session => .upsert legacySessionNamespace (Enc.u64 client.toNat) (encodeSession session))
        (.delete legacySessionNamespace (Enc.u64 client.toNat)))

end Kv
end CrashCourse.KeyValue
