import CrashCourse.Core.Codec

/-!
The store as the state machine sees it: how versions are spread over tables is not
modelled, and a flush fails only on more entries than a `u32` counts.
-/

namespace CrashCourse.KeyValue
open CrashCourse.Core

instance pairOrd {α β : Type} [Ord α] [Ord β] : Ord (α × β) := lexOrd

structure StoreConfig where
  maxKeyBytes : Nat
  maxValueBytes : Nat
  segmentSize : Nat
  maxRecordSize : Nat

def StoreConfig.default : StoreConfig where
  maxKeyBytes := 4 * 1024
  maxValueBytes := 1024 * 1024
  segmentSize := 16 * 1024 * 1024
  maxRecordSize := 2 * 1024 * 1024

/-- The error texts are those of the source. -/
inductive StoreError where
  | recordTooLarge (size max : Nat)
  | invalidInput (what : String)
  | tooLarge (what : String) (size max : Nat)
  deriving DecidableEq, Repr

inductive ValueKind where
  | put | delete
  deriving DecidableEq, Repr

def recordHeaderSize : Nat := 9
def segmentHeaderSize : Nat := 14

/-- The size checks of `Wal::append`; `encode_record` adds its header to the payload. -/
def walAppend (config : StoreConfig) (payload : Nat) : Except StoreError Unit :=
  let size := recordHeaderSize + payload
  if size > config.maxRecordSize || decide (payload > 2 ^ 32 - 1) then
    .error (.recordTooLarge size config.maxRecordSize)
  else if size > config.segmentSize - segmentHeaderSize then
    .error (.recordTooLarge size (config.segmentSize - segmentHeaderSize))
  else .ok ()

def encodeMutation (sequence : Nat) (key value : Bytes) (kind : ValueKind) : Bytes :=
  Enc.u64 sequence ++ Enc.u8 (match kind with | .put => 1 | .delete => 2) ++ Enc.bytes key
    ++ Enc.bytes value

theorem encodeMutation_length (sequence : Nat) (key value : Bytes) (kind : ValueKind) :
    (encodeMutation sequence key value kind).length = 17 + key.length + value.length := by
  simp [encodeMutation, Enc.u64, Enc.u8, Enc.bytes, Enc.u32, leBytes]
  omega

/-- The checks of `Store::apply` on one key and value. -/
def StoreConfig.admits (config : StoreConfig) (sequence : Nat) (key value : Bytes) (kind : ValueKind) :
    Except StoreError Unit :=
  if key.isEmpty then .error (.invalidInput "empty key")
  else if key.length > config.maxKeyBytes then .error (.tooLarge "key" key.length config.maxKeyBytes)
  else if value.length > config.maxValueBytes then
    .error (.tooLarge "value" value.length config.maxValueBytes)
  else walAppend config (encodeMutation sequence key value kind).length

theorem StoreConfig.admits_irrelevant (config : StoreConfig) (sequence other : Nat) (key value : Bytes)
    (kind kind' : ValueKind) : config.admits sequence key value kind = config.admits other key value kind' := by
  unfold admits
  rw [encodeMutation_length, encodeMutation_length]

structure StoreWatermark where
  index : Nat
  term : Nat
  lastLeaderTime : Nat
  deriving DecidableEq, Repr

structure Store where
  config : StoreConfig
  nextSequence : Nat
  live : BTreeMap Bytes (Nat × Bytes)
  metadata : BTreeMap (UInt8 × Bytes) Bytes
  appliedWatermark : Option StoreWatermark

namespace Store

def new (config : StoreConfig) : Store where
  config
  nextSequence := 0
  live := ∅
  metadata := ∅
  appliedWatermark := none

def put (store : Store) (key value : Bytes) : Except StoreError Store :=
  match store.config.admits (store.nextSequence + 1) key value .put with
  | .error error => .error error
  | .ok _ =>
    .ok { store with
      nextSequence := store.nextSequence + 1
      live := store.live.insert key (store.nextSequence + 1, value) }

def delete (store : Store) (key : Bytes) : Except StoreError Store :=
  match store.config.admits (store.nextSequence + 1) key [] .delete with
  | .error error => .error error
  | .ok _ =>
    .ok { store with
      nextSequence := store.nextSequence + 1
      live := store.live.erase key }

theorem put_cases (store : Store) (key value : Bytes) :
    (∃ error, store.config.admits 0 key value .put = .error error ∧
      store.put key value = .error error) ∨
    ∃ next, store.config.admits 0 key value .put = .ok () ∧ store.put key value = .ok next := by
  rw [store.config.admits_irrelevant 0 (store.nextSequence + 1) key value .put .put]
  unfold put
  split
  next error refused => exact .inl ⟨error, refused, rfl⟩
  next admitted => exact .inr ⟨_, admitted, rfl⟩

theorem delete_cases (store : Store) (key : Bytes) : (∃ error, store.config.admits 0 key [] .delete = .error error ∧
      store.delete key = .error error) ∨
    ∃ next, store.config.admits 0 key [] .delete = .ok () ∧ store.delete key = .ok next := by
  rw [store.config.admits_irrelevant 0 (store.nextSequence + 1) key [] .delete .delete]
  unfold delete
  split
  next error refused => exact .inl ⟨error, refused, rfl⟩
  next admitted => exact .inr ⟨_, admitted, rfl⟩

theorem put_ok {store next : Store} {key value : Bytes} (done : store.put key value = .ok next) :
    next.live = store.live.insert key (store.nextSequence + 1, value) ∧
      next.config = store.config ∧ next.nextSequence = store.nextSequence + 1 := by
  unfold put at done
  split at done
  · cases done
  · obtain rfl := Except.ok.inj done
    exact ⟨rfl, rfl, rfl⟩

theorem delete_ok {store next : Store} {key : Bytes} (done : store.delete key = .ok next) :
    next.live = store.live.erase key ∧ next.config = store.config ∧
      next.nextSequence = store.nextSequence + 1 := by
  unfold delete at done
  split at done
  · cases done
  · obtain rfl := Except.ok.inj done
    exact ⟨rfl, rfl, rfl⟩

def get (store : Store) (key : Bytes) : Option Bytes := store.live[key]?.map Prod.snd

def inRange (start stop : Option Bytes) (key : Bytes) : Bool :=
  (start.all fun start => (compare start key).isLE) && (stop.all fun stop => (compare key stop).isLT)

def range (store : Store) (start stop : Option Bytes) : List (Bytes × Bytes) :=
  (store.live.toList.map fun entry => (entry.1, entry.2.2)).filter fun entry =>
    inRange start stop entry.1

def scan (store : Store) (start stop : Option Bytes) (limit : Nat) : List (Bytes × Bytes) :=
  (store.range start stop).take limit

end Store
end CrashCourse.KeyValue
