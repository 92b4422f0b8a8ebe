import CrashCourse.Linearization.Objects

/-!
Objects made of parts: operations are linearizable just when those of each part are.
-/

namespace Linearization

variable {α σ τ κ T : Type*} [LinearOrder T] [DecidableEq κ]

structure Local (step : σ → α → Option σ) (part : α → κ) (view : σ → κ → τ) (operation : α) : Prop where
  frame : ∀ {state next : σ} {key : κ}, step state operation = some next → key ≠ part operation →
    view next key = view state key
  agrees : ∀ {state next other : σ}, view other (part operation) = view state (part operation) →
    step state operation = some next →
    ∃ next', step other operation = some next' ∧ view next' (part operation) = view next (part operation)

def only (part : α → κ) (key : κ) (operations : List α) : List α :=
  operations.filter fun operation => decide (part operation = key)

section Only
variable {part : α → κ} {key : κ} {operations : List α}

variable {operation : α} {all lefts rights : List α}

theorem mem_only : operation ∈ only part key operations ↔ operation ∈ operations ∧ part operation = key := by
  simp [only]

theorem only_cons_same (same : part operation = key) :
    only part key (operation :: operations) = operation :: only part key operations := by
  simp [only, same]

theorem only_cons_other (other : part operation ≠ key) :
    only part key (operation :: operations) = only part key operations := by
  simp [only, other]

theorem only_all (all : ∀ operation ∈ operations, part operation = key) : only part key operations = operations :=
  List.filter_eq_self.mpr fun operation member => decide_eq_true (all operation member)

theorem only_none (none : ∀ operation ∈ operations, part operation ≠ key) : only part key operations = [] :=
  List.filter_eq_nil_iff.mpr fun operation member => by simpa using none operation member

theorem Interleaves.only (mixed : Interleaves lefts rights all) (part : α → κ) (key : κ) :
    Interleaves (only part key lefts) (only part key rights) (only part key all) := by
  induction mixed with
  | nil => exact .nil
  | @left head _ _ _ _ ih =>
    by_cases same : part head = key
    · rw [only_cons_same same, only_cons_same same]
      exact .left ih
    · rwa [only_cons_other same, only_cons_other same]
  | @right head _ _ _ _ ih =>
    by_cases same : part head = key
    · rw [only_cons_same same, only_cons_same same]
      exact .right ih
    · rwa [only_cons_other same, only_cons_other same]

theorem Interleaves.eq_left (mixed : Interleaves lefts [] all) : all = lefts := by
  induction lefts generalizing all with
  | nil => cases mixed; rfl
  | cons head rest ih =>
    cases mixed with
    | left rest => rw [ih rest]

theorem Interleaves.eq_right (mixed : Interleaves [] rights all) : all = rights := by
  induction rights generalizing all with
  | nil => cases mixed; rfl
  | cons head rest ih =>
    cases mixed with
    | right rest => rw [ih rest]

end Only

section Parts
variable {timing : Timing α T} {step : σ → α → Option σ} {optional : α → Prop} {part : α → κ} {view : σ → κ → τ}
variable {operations order : List α} {state : σ}

theorem runs_only (parts : ∀ operation ∈ order, Local step part view operation) {key : κ} {other : σ}
    (same : view other key = view state key) (runs : (order.foldlM step state).isSome) :
    ((only part key order).foldlM step other).isSome := by
  induction order generalizing state other with
  | nil => rfl
  | cons operation rest ih =>
    have here := parts operation List.mem_cons_self
    have later := fun other member => parts other (List.mem_cons_of_mem operation member)
    obtain ⟨next, steps, runs⟩ := foldlM_cons_isSome.mp runs
    by_cases mine : part operation = key
    · subst mine
      obtain ⟨next', steps', matching⟩ := here.agrees same steps
      rw [only_cons_same rfl]
      exact foldlM_cons_isSome.mpr ⟨next', steps', ih later matching runs⟩
    · rw [only_cons_other mine]
      exact ih later (same.trans (here.frame steps (Ne.symm mine)).symm) runs

theorem runs_of_only (parts : ∀ operation ∈ order, Local step part view operation) (starts : κ → σ)
    (same : ∀ key, view (starts key) key = view state key)
    (runs : ∀ key, ((only part key order).foldlM step (starts key)).isSome) : (order.foldlM step state).isSome := by
  induction order generalizing state starts with
  | nil => rfl
  | cons operation rest ih =>
    have here := parts operation List.mem_cons_self
    have mine := runs (part operation)
    rw [only_cons_same rfl] at mine
    obtain ⟨next', steps', mine⟩ := foldlM_cons_isSome.mp mine
    obtain ⟨next, steps, matching⟩ := here.agrees (same (part operation)).symm steps'
    refine foldlM_cons_isSome.mpr ⟨next, steps, ?_⟩
    -- the part of the operation goes on from where its own run has got to
    refine ih (fun other member => parts other (List.mem_cons_of_mem operation member))
      (Function.update starts (part operation) next') (fun key => ?_) fun key => ?_
    · by_cases equal : key = part operation
      · subst equal
        rw [Function.update_self, matching]
      · rw [Function.update_of_ne equal, same key, here.frame steps equal]
    · by_cases equal : key = part operation
      · subst equal
        rwa [Function.update_self]
      · rw [Function.update_of_ne equal]
        have others := runs key
        rwa [only_cons_other (Ne.symm equal)] at others

theorem Linearizable.only (parts : ∀ operation ∈ operations, Local step part view operation) {key : κ} {other : σ}
    (same : view other key = view state key) (whole : Linearizable timing step optional operations state) :
    Linearizable timing step optional (only part key operations) other := by
  obtain ⟨order, ⟨omitted, covers, may⟩, respects, runs⟩ := whole
  refine ⟨Linearization.only part key order, ⟨Linearization.only part key omitted, ?_, ?_⟩, ?_, ?_⟩
  · have filtered := covers.filter fun operation => decide (part operation = key)
    rwa [List.filter_append] at filtered
  · exact fun operation member => may operation (mem_only.mp member).1
  · exact respects.of_sublist List.filter_sublist
  · refine runs_only (fun operation member => parts operation ?_) same runs
    exact covers.mem_iff.mpr (List.mem_append_left omitted member)

theorem Linearizable.merge (parts : ∀ operation ∈ operations, Local step part view operation)
    (forward : ∀ operation ∈ operations, timing.Forward operation) {key : κ} {start : σ}
    (same : view start key = view state key)
    (mine : Linearizable timing step optional (Linearization.only part key operations) start)
    (others : Linearizable timing step optional
      (operations.filter fun operation => !decide (part operation = key)) state) :
    Linearizable timing step optional operations state := by
  obtain ⟨order, ⟨omitted, covers, may⟩, respects, runs⟩ := mine
  obtain ⟨order', ⟨omitted', covers', may'⟩, respects', runs'⟩ := others
  have inside : ∀ operation ∈ order, operation ∈ operations ∧ part operation = key := fun operation member =>
    mem_only.mp (covers.mem_iff.mpr (List.mem_append_left omitted member))
  have outside : ∀ operation ∈ order', operation ∈ operations ∧ part operation ≠ key := fun operation member => by
    simpa using covers'.mem_iff.mpr (List.mem_append_left omitted' member)
  obtain ⟨all, mixed, respected⟩ := Interleaves.exists_respecting
    (fun operation member => forward operation (inside operation member).1)
    (fun operation member => forward operation (outside operation member).1) respects respects'
  have within : ∀ operation ∈ all, operation ∈ operations := fun operation member => by
    rcases List.mem_append.mp (mixed.perm.mem_iff.mp member) with member | member
    · exact (inside operation member).1
    · exact (outside operation member).1
  refine ⟨all, ⟨omitted ++ omitted', ?_, ?_⟩, respected, ?_⟩
  · have split := (List.filter_append_perm (fun operation => decide (part operation = key)) operations).symm
    refine split.trans ((covers.append covers').trans ?_)
    refine List.Perm.trans ?_ (mixed.perm.symm.append_right _)
    simp only [List.append_assoc]
    refine List.Perm.append_left order ?_
    simp only [← List.append_assoc]
    exact List.perm_append_comm.append_right omitted'
  · intro operation member
    rcases List.mem_append.mp member with member | member
    · exact may operation member
    · exact may' operation member
  · refine runs_of_only (fun operation member => parts operation (within operation member))
      (Function.update (fun _ => state) key start) (fun key' => ?_) fun key' => ?_
    · by_cases equal : key' = key
      · subst equal
        rw [Function.update_self, same]
      · rw [Function.update_of_ne equal]
    · have mixed' := mixed.only part key'
      by_cases equal : key' = key
      · subst equal
        rw [only_none fun operation member => (outside operation member).2] at mixed'
        rwa [Function.update_self, mixed'.eq_left, only_all fun operation member => (inside operation member).2]
      · rw [only_none fun operation member => by rw [(inside operation member).2]; exact Ne.symm equal] at mixed'
        rw [Function.update_of_ne equal, mixed'.eq_right]
        exact runs_only (fun operation member => parts operation (outside operation member).1) rfl runs'

theorem Linearizable.of_only (keys : List κ) {starts : κ → σ}
    (parts : ∀ operation ∈ operations, Local step part view operation)
    (forward : ∀ operation ∈ operations, timing.Forward operation)
    (covered : ∀ operation ∈ operations, part operation ∈ keys) (same : ∀ key, view (starts key) key = view state key)
    (each : ∀ key ∈ keys, Linearizable timing step optional (Linearization.only part key operations) (starts key)) :
    Linearizable timing step optional operations state := by
  induction keys generalizing operations with
  | nil =>
    cases operations with
    | nil => exact ⟨[], ⟨[], .nil, by simp⟩, .nil, rfl⟩
    | cons operation rest => cases covered operation List.mem_cons_self
  | cons key keys ih =>
    refine Linearizable.merge parts forward (same key) (each key List.mem_cons_self) ?_
    have within : ∀ operation ∈ operations.filter (fun operation => !decide (part operation = key)),
        operation ∈ operations ∧ part operation ≠ key := fun operation member => by simpa using member
    refine ih (fun operation member => parts operation (within operation member).1)
      (fun operation member => forward operation (within operation member).1)
      (fun operation member => ?_) fun other member => ?_
    · obtain ⟨held, apart⟩ := within operation member
      exact (List.mem_cons.mp (covered operation held)).resolve_left apart
    · by_cases equal : other = key
      · subst equal
        rw [only_none fun operation member => (within operation member).2]
        exact ⟨[], ⟨[], .nil, by simp⟩, .nil, rfl⟩
      · have kept : Linearization.only part other
              (operations.filter fun operation => !decide (part operation = key)) =
            Linearization.only part other operations := by
          unfold Linearization.only
          rw [List.filter_filter]
          refine List.filter_congr fun operation _ => ?_
          by_cases mine : part operation = other
          · simp [mine, equal]
          · simp [mine]
        rw [kept]
        exact each other (List.mem_cons_of_mem key member)

end Parts
end Linearization
