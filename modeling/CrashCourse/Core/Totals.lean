import CrashCourse.Core.Codec

/-!
Sums over the entries of an ordered map, such as the bytes of a checkpoint, and how they change when one key does.
-/

namespace CrashCourse

section Totals
variable {κ ν : Type} [DecidableEq κ] [Ord κ] [Std.TransOrd κ] [Std.LawfulEqOrd κ] {map : BTreeMap κ ν}
  {weigh : κ → ν → Nat} {key : κ}

def total (weigh : κ → ν → Nat) (map : BTreeMap κ ν) : Nat :=
  (map.toList.map fun entry => weigh entry.1 entry.2).sum

omit [DecidableEq κ] in
theorem nodup_toList (map : BTreeMap κ ν) : map.toList.Nodup := by
  refine Std.ExtTreeMap.distinct_keys_toList.imp ?_
  rintro left right different rfl
  exact different Std.ReflCmp.compare_self

theorem total_erase {value : ν} (held : map[key]? = some value) :
    total weigh map = weigh key value + total weigh (map.erase key) := by
  have fresh : ((key, value) :: (map.erase key).toList).Nodup := by
    refine List.nodup_cons.mpr ⟨?_, nodup_toList _⟩
    rw [Std.ExtTreeMap.mem_toList_iff_getElem?_eq_some, Std.ExtTreeMap.getElem?_erase_self]
    rintro ⟨⟩
  have same : map.toList.Perm ((key, value) :: (map.erase key).toList) := by
    rw [List.perm_ext_iff_of_nodup (nodup_toList _) fresh]
    rintro ⟨other, found⟩
    rw [List.mem_cons, Std.ExtTreeMap.mem_toList_iff_getElem?_eq_some,
      Std.ExtTreeMap.mem_toList_iff_getElem?_eq_some, Std.ExtTreeMap.getElem?_erase, Prod.mk.injEq]
    by_cases here : key = other
    · subst here
      simp [held, eq_comm]
    · simp [here, Ne.symm here]
  unfold total
  rw [(same.map _).sum_eq]
  exact List.sum_cons

theorem total_eq (map : BTreeMap κ ν) (key : κ) :
    total weigh map = (map[key]?.map (weigh key)).getD 0 + total weigh (map.erase key) := by
  cases held : map[key]? with
  | some value => exact total_erase held
  | none =>
    have same : map.erase key = map := by
      apply Std.ExtTreeMap.ext_getElem?
      intro other
      rw [Std.ExtTreeMap.getElem?_erase]
      split
      next here => rw [← Std.LawfulEqCmp.eq_of_compare here, held]
      · rfl
    rw [same]
    exact (Nat.zero_add _).symm

theorem total_erase_le (map : BTreeMap κ ν) (key : κ) : total weigh (map.erase key) ≤ total weigh map := by
  rw [total_eq map key]
  exact Nat.le_add_left ..

theorem total_insert (value : ν) :
    total weigh (map.insert key value) = weigh key value + total weigh (map.erase key) := by
  have same : (map.insert key value).erase key = map.erase key := by
    apply Std.ExtTreeMap.ext_getElem?
    intro other
    rw [Std.ExtTreeMap.getElem?_erase, Std.ExtTreeMap.getElem?_erase, Std.ExtTreeMap.getElem?_insert]
    split <;> rfl
  rw [total_erase Std.ExtTreeMap.getElem?_insert_self, same]

theorem sum_le_total {keys : List κ} (different : keys.Nodup) {amount : κ → Nat}
    (covered : ∀ key ∈ keys, amount key ≤ (map[key]?.map (weigh key)).getD 0) :
    (keys.map amount).sum ≤ total weigh map := by
  induction keys generalizing map with
  | nil => exact Nat.zero_le _
  | cons first rest ih =>
    obtain ⟨fresh, different⟩ := List.nodup_cons.mp different
    have here := covered first List.mem_cons_self
    have others : (rest.map amount).sum ≤ total weigh (map.erase first) := by
      apply ih different
      intro key member
      have apart : first ≠ key := fun same => fresh (same ▸ member)
      rw [Std.ExtTreeMap.getElem?_erase, if_neg fun same => apart (Std.LawfulEqCmp.eq_of_compare same)]
      exact covered key (List.mem_cons_of_mem _ member)
    rw [List.map_cons, List.sum_cons, total_eq map first]
    exact Nat.add_le_add here others

end Totals

theorem foldl_saturatingAdd {α : Type} (amount : α → Nat) (entries : List α) (start : Nat) :
    entries.foldl (fun sum entry => saturatingAdd sum (amount entry)) (min start u64Max) =
      min (start + (entries.map amount).sum) u64Max := by
  induction entries generalizing start with
  | nil => rfl
  | cons entry rest ih =>
    have step : saturatingAdd (min start u64Max) (amount entry) = min (start + amount entry) u64Max := by
      unfold saturatingAdd
      omega
    rw [List.foldl_cons, step, ih, List.map_cons, List.sum_cons, Nat.add_assoc]

end CrashCourse
