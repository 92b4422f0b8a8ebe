import CrashCourse.Linearization.Intervals

/-!
Linearizability on an object, which is a partial step function. `Linearizable` asks for an
order at once; `Completes` builds one step by step, as a search does.
-/

namespace Linearization

variable {α σ T : Type*} [LinearOrder T]

section Objects
variable (timing : Timing α T) (step : σ → α → Option σ) (optional : α → Prop)

/-- An order of all operations, but for optional ones, that respects the times and
explains the answers. -/
structure Explains (operations : List α) (state : σ) (order : List α) : Prop where
  covers : ∃ omitted, operations.Perm (order ++ omitted) ∧ ∀ operation ∈ omitted, optional operation
  respects : timing.Respects order
  runs : (order.foldlM step state).isSome

def Linearizable (operations : List α) (state : σ) : Prop :=
  ∃ order, Explains timing step optional operations state order

/-- Take an operation that nothing left precedes, or leave it out if it is optional, and go on. -/
inductive Completes : List α → σ → Prop
  | done {state : σ} : Completes [] state
  | skip {operations rest : List α} {operation : α} {state : σ} (split : operations.Perm (operation :: rest))
      (free : ∀ other ∈ rest, ¬ timing.Precedes other operation) (may : optional operation)
      (later : Completes rest state) : Completes operations state
  | take {operations rest : List α} {operation : α} {state next : σ}
      (split : operations.Perm (operation :: rest))
      (free : ∀ other ∈ rest, ¬ timing.Precedes other operation) (steps : step state operation = some next)
      (later : Completes rest next) : Completes operations state

end Objects

section Completion
variable {timing : Timing α T} {step : σ → α → Option σ} {optional : α → Prop} {operations : List α} {state : σ}

theorem foldlM_cons_isSome {operation : α} {order : List α} : ((operation :: order).foldlM step state).isSome = true ↔
      ∃ next, step state operation = some next ∧ (order.foldlM step next).isSome = true := by
  rw [List.foldlM_cons]
  cases step state operation with
  | none | some next => simp

theorem foldlM_append_isSome {before after : List α} : ((before ++ after).foldlM step state).isSome = true ↔
      ∃ next, before.foldlM step state = some next ∧ (after.foldlM step next).isSome = true := by
  rw [List.foldlM_append]
  cases before.foldlM step state with
  | none | some next => simp

theorem foldlM_keeps (kept : σ → Prop) {order : List α} {next : σ}
    (keeps : ∀ operation ∈ order, ∀ {state next}, kept state → step state operation = some next → kept next)
    (start : kept state) (runs : order.foldlM step state = some next) : kept next := by
  induction order generalizing state with
  | nil =>
    cases runs
    exact start
  | cons operation rest ih =>
    rw [List.foldlM_cons] at runs
    obtain ⟨middle, steps, runs⟩ := Option.bind_eq_some_iff.mp runs
    exact ih (fun other member => keeps other (List.mem_cons_of_mem operation member))
      (keeps operation List.mem_cons_self start steps) runs

theorem Completes.linearizable (completes : Completes timing step optional operations state) :
    Linearizable timing step optional operations state := by
  induction completes with
  | done => exact ⟨[], ⟨[], .nil, by simp⟩, .nil, rfl⟩
  | @skip operations rest operation state split free may _ ih =>
    obtain ⟨order, ⟨omitted, covers, all⟩, respects, runs⟩ := ih
    refine ⟨order, ⟨operation :: omitted, ?_, ?_⟩, respects, runs⟩
    · exact split.trans ((covers.cons operation).trans List.perm_middle.symm)
    · intro other member
      rcases List.mem_cons.mp member with rfl | member
      · exact may
      · exact all other member
  | @take operations rest operation state next split free steps _ ih =>
    obtain ⟨order, ⟨omitted, covers, all⟩, respects, runs⟩ := ih
    refine ⟨operation :: order, ⟨omitted, split.trans (covers.cons operation), all⟩, ?_,
      foldlM_cons_isSome.mpr ⟨next, steps, runs⟩⟩
    refine List.pairwise_cons.mpr ⟨fun later member => free later ?_, respects⟩
    exact covers.mem_iff.mpr (List.mem_append_left _ member)

theorem Timing.respects_sorted (forward : ∀ operation ∈ operations, timing.Forward operation) :
    timing.Respects (operations.mergeSort fun left right => decide (timing.start left ≤ timing.start right)) := by
  have sorted := @List.pairwise_mergeSort α (fun left right => decide (timing.start left ≤ timing.start right))
    (fun _ _ _ first second => decide_eq_true ((of_decide_eq_true first).trans (of_decide_eq_true second)))
    (fun left right => by simpa using le_total (timing.start left) (timing.start right)) operations
  refine sorted.imp_of_mem ?_
  rintro left right - member began ⟨stop, stopped, before⟩
  have later := forward right (List.mem_mergeSort.mp member) stop stopped
  exact absurd before (not_lt.mpr ((of_decide_eq_true began).trans later))

theorem Interleaves.completes {order omitted all : List α} (mixed : Interleaves order omitted all)
    (respects : timing.Respects all) (may : ∀ operation ∈ omitted, optional operation)
    (runs : (order.foldlM step state).isSome) : Completes timing step optional all state := by
  induction mixed generalizing state with
  | nil => exact .done
  | left rest ih =>
    obtain ⟨next, steps, runs⟩ := foldlM_cons_isSome.mp runs
    exact .take (.refl _) respects.head steps (ih respects.tail may runs)
  | right rest ih =>
    refine .skip (.refl _) respects.head (may _ List.mem_cons_self) (ih respects.tail ?_ runs)
    exact fun operation member => may operation (List.mem_cons_of_mem _ member)

theorem Completes.perm {others : List α} (completes : Completes timing step optional operations state)
    (same : others.Perm operations) : Completes timing step optional others state := by
  cases completes with
  | done => rw [List.perm_nil.mp same]; exact .done
  | skip split free may later => exact .skip (same.trans split) free may later
  | take split free steps later => exact .take (same.trans split) free steps later

theorem completes_iff (forward : ∀ operation ∈ operations, timing.Forward operation) :
    Completes timing step optional operations state ↔ Linearizable timing step optional operations state := by
  constructor
  · exact Completes.linearizable
  · rintro ⟨order, ⟨omitted, covers, may⟩, respects, runs⟩
    have whole : ∀ operation, operation ∈ order ∨ operation ∈ omitted → timing.Forward operation :=
      fun operation member => forward operation (covers.mem_iff.mpr (List.mem_append.mpr member))
    have sorted := Timing.respects_sorted fun operation member => whole operation (.inr member)
    obtain ⟨all, mixed, respected⟩ := Interleaves.exists_respecting
      (fun operation member => whole operation (.inl member))
      (fun operation member => whole operation (.inr (List.mem_mergeSort.mp member))) respects sorted
    refine (mixed.completes respected (fun operation member => ?_) runs).perm ?_
    · exact may operation (List.mem_mergeSort.mp member)
    · exact covers.trans (((List.mergeSort_perm _ _).symm.append_left order).trans mixed.perm.symm)

end Completion

section Guards
variable (step : σ → α → Option σ) (good : σ → α → Bool)

def guarded (state : σ) (operation : α) : Option σ :=
  if good state operation then step state operation else none

/-- Each step of a run is good. -/
def along : σ → List α → Bool
  | _, [] => true
  | state, operation :: rest =>
    good state operation && (step state operation).all fun next => along next rest

theorem guarded_runs {order : List α} {state : σ} : (order.foldlM (guarded step good) state).isSome ↔
    (order.foldlM step state).isSome ∧ along step good state order := by
  induction order generalizing state with
  | nil => simp [along]
  | cons operation rest ih =>
    rw [foldlM_cons_isSome, foldlM_cons_isSome, along, guarded]
    cases good state operation with
    | false => simp
    | true => cases step state operation <;> simp [ih]

end Guards

section Simulation
variable {ρ : Type*} {timing : Timing α T} {step : σ → α → Option σ} {step' : ρ → α → Option ρ} {optional : α → Prop}
variable {related : σ → ρ → Prop}

/-- Each step is a step of the other object too, unless the operation may be left out
there. -/
def Follows (step : σ → α → Option σ) (step' : ρ → α → Option ρ) (optional : α → Prop) (related : σ → ρ → Prop)
    (operation : α) : Prop :=
  ∀ ⦃state next state'⦄, related state state' → step state operation = some next →
    (∃ next', step' state' operation = some next' ∧ related next next') ∨ optional operation ∧ related next state'

theorem Follows.runs {order : List α} {state : σ} {state' : ρ}
    (follows : ∀ operation ∈ order, Follows step step' optional related operation) (start : related state state')
    (runs : (order.foldlM step state).isSome) :
    ∃ kept dropped, order.Perm (kept ++ dropped) ∧ kept.Sublist order ∧ (∀ operation ∈ dropped, optional operation) ∧
      (kept.foldlM step' state').isSome := by
  induction order generalizing state state' with
  | nil => exact ⟨[], [], .nil, .slnil, by simp, rfl⟩
  | cons operation rest ih =>
    obtain ⟨next, steps, runs⟩ := foldlM_cons_isSome.mp runs
    have later := fun other member => follows other (List.mem_cons_of_mem operation member)
    rcases follows operation List.mem_cons_self start steps with ⟨next', steps', start⟩ | ⟨may, start⟩
    · obtain ⟨kept, dropped, covers, within, all, runs'⟩ := ih later start runs
      exact ⟨operation :: kept, dropped, covers.cons operation, within.cons_cons operation, all,
        foldlM_cons_isSome.mpr ⟨next', steps', runs'⟩⟩
    · obtain ⟨kept, dropped, covers, within, all, runs'⟩ := ih later start runs
      refine ⟨kept, operation :: dropped, (covers.cons operation).trans List.perm_middle.symm,
        within.cons operation, fun other member => ?_, runs'⟩
      rcases List.mem_cons.mp member with rfl | member
      · exact may
      · exact all other member

theorem Linearizable.follow (related : σ → ρ → Prop) {operations : List α} {state : σ} {state' : ρ}
    (follows : ∀ operation ∈ operations, Follows step step' optional related operation)
    (start : related state state') (explained : Linearizable timing step optional operations state) :
    Linearizable timing step' optional operations state' := by
  obtain ⟨order, ⟨omitted, covers, may⟩, respects, runs⟩ := explained
  obtain ⟨kept, dropped, split, within, all, runs'⟩ := Follows.runs
    (fun operation member => follows operation (covers.mem_iff.mpr (List.mem_append_left omitted member))) start runs
  refine ⟨kept, ⟨dropped ++ omitted, ?_, fun operation member => ?_⟩, respects.of_sublist within, runs'⟩
  · rw [← List.append_assoc]
    exact covers.trans (split.append_right omitted)
  · rcases List.mem_append.mp member with member | member
    · exact all operation member
    · exact may operation member

end Simulation
end Linearization
