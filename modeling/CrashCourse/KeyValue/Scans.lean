import CrashCourse.KeyValue.State

/-!
Scans against reads of single keys: a scan is cut at its limit before it loses its expired
keys.
-/

namespace CrashCourse.KeyValue
open CrashCourse.Core

/-- Of the first `count` items those shown are wanted, and none takes the place of a
later one. -/
def CutHolds {α : Type} (shown wanted : α → Bool) (items : List α) (count : Nat) : Prop :=
  (∀ item ∈ items.take count, shown item → wanted item) ∧
    ((∀ item ∈ items.take count, wanted item) ∨ ∀ item ∈ items.drop count, ¬ wanted item)

instance {α : Type} (shown wanted : α → Bool) (items : List α) (count : Nat) :
    Decidable (CutHolds shown wanted items count) := inferInstanceAs (Decidable (_ ∧ _))

theorem filter_take_eq_iff {α : Type} {shown wanted : α → Bool} (sub : ∀ item, wanted item → shown item)
    (items : List α) (count : Nat) :
    (items.take count).filter shown = (items.filter wanted).take count ↔ CutHolds shown wanted items count := by
  have cut : ((items.take count).filter wanted).length ≤ count :=
    (List.length_filter_le ..).trans (List.length_take_le ..)
  have whole : (items.filter wanted).take count = (items.take count).filter wanted ++
      ((items.drop count).filter wanted).take (count - ((items.take count).filter wanted).length) := by
    conv_lhs => rw [← List.take_append_drop count items, List.filter_append, List.take_append]
    rw [List.take_of_length_le cut]
  have restrict : (∀ item ∈ items.take count, shown item → wanted item) →
      (items.take count).filter shown = (items.take count).filter wanted := fun firsts =>
    List.filter_congr fun item member => Bool.eq_iff_iff.mpr ⟨firsts item member, sub item⟩
  constructor
  · intro same
    have firsts : ∀ item ∈ items.take count, shown item → wanted item := by
      intro item member held
      have kept : item ∈ (items.filter wanted).take count := same ▸ List.mem_filter.mpr ⟨member, held⟩
      exact (List.mem_filter.mp (List.mem_of_mem_take kept)).2
    rw [whole, restrict firsts, List.self_eq_append_right, List.take_eq_nil_iff] at same
    refine ⟨firsts, same.imp (fun full => ?_) fun empty item member =>
      (List.filter_eq_nil_iff.mp empty) item member⟩
    have long : (items.take count).length ≤ count := List.length_take_le ..
    exact List.length_filter_eq_length_iff.mp (by have := List.length_filter_le wanted (items.take count); omega)
  · rintro ⟨firsts, full | empty⟩
    · rw [restrict firsts, whole, List.filter_eq_self.mpr full]
      rcases Nat.lt_or_ge items.length count with short | long
      · rw [List.drop_eq_nil_of_le short.le]
        simp
      · rw [List.length_take, min_eq_left long, Nat.sub_self, List.take_zero, List.append_nil]
    · rw [restrict firsts, whole, List.filter_eq_nil_iff.mpr empty, List.take_nil, List.append_nil]

namespace Kv

def visible (kv : Kv) (now : Nat) (entry : Bytes × Bytes) : Bool := !kv.expired entry.1 now

def present (kv : Kv) (start stop : Option Bytes) (now : Nat) : List (Bytes × Bytes) :=
  (kv.store.live.keys.filter (Store.inRange start stop)).filterMap fun key =>
    (kv.visibleGet key now).map fun value => (key, value)

theorem present_eq (kv : Kv) (start stop : Option Bytes) (now : Nat) :
    kv.present start stop now = (kv.store.range start stop).filter (kv.visible now) := by
  have found : ∀ entry ∈ kv.store.live.toList, kv.store.live[entry.1]? = some entry.2 := fun entry member =>
    Std.ExtTreeMap.mem_toList_iff_getElem?_eq_some.mp member
  unfold present Store.range
  rw [← Std.ExtTreeMap.map_fst_toList_eq_keys]
  generalize kv.store.live.toList = entries at found
  induction entries with
  | nil => rfl
  | cons entry entries ih =>
    have here : kv.visibleGet entry.1 now = if kv.expired entry.1 now then none else some entry.2.2 := by
      rw [visibleGet, Store.get, found entry (by simp)]
      rfl
    have rest := ih fun other member => found other (List.mem_cons_of_mem _ member)
    rw [List.map_cons, List.map_cons, List.filter_cons, List.filter_cons]
    cases Store.inRange start stop entry.1 with
    | false => exact rest
    | true => cases gone : kv.expired entry.1 now <;> simp [here, visible, gone, rest]

theorem range_eq_filter (kv : Kv) (start stop : Option Bytes) : kv.store.range start stop =
    (kv.store.range none none).filter fun entry => Store.inRange start stop entry.1 := by
  unfold Store.range
  rw [List.filter_filter]
  exact List.filter_congr fun entry _ => (Bool.and_true _).symm

def shortLived : Kv :=
  ((((Kv.new .default).applyOp 0 0 (.set [97] [1] (some 5))).1).applyOp 0 0 (.set [98] [2] none)).1

end Kv

end CrashCourse.KeyValue
