import CrashCourse.Checker.Search
import CrashCourse.Linearization.Locality

/-!
The split of a history by key: without scans and batches each key is searched for itself,
because linearizability is local.
-/

namespace CrashCourse.Checker
open CrashCourse.Core

def OperationKind.isKeyed (kind : OperationKind) : Bool := !kind.isScan && !kind.isBatch

variable {deadline : Option Nat} {kind : OperationKind} {model next initial : Model}
  {split : List (Bytes × List Operation)}

theorem applySimple_frame {reply : Outcome} (keyed : kind.isKeyed)
    (applied : applySimple model deadline kind = some (next, reply)) {key : Bytes} (other : key ≠ kind.key) :
    next[key]? = model[key]? := by
  cases kind with
  | set key' value =>
    obtain ⟨rfl, -⟩ := Prod.mk.inj (Option.some.inj applied)
    simp [Std.ExtTreeMap.getElem?_insert, Ne.symm (show key ≠ key' from other)]
  | get key' =>
    obtain ⟨rfl, -⟩ := Prod.mk.inj (Option.some.inj applied)
    rfl
  | del key' =>
    obtain ⟨rfl, -⟩ := Prod.mk.inj (Option.some.inj applied)
    simp [Std.ExtTreeMap.getElem?_erase, Ne.symm (show key ≠ key' from other)]
  | incr key' =>
    obtain ⟨new, -, same⟩ := Option.map_eq_some_iff.mp applied
    obtain ⟨rfl, -⟩ := Prod.mk.inj same
    simp [Std.ExtTreeMap.getElem?_insert, Ne.symm (show key ≠ key' from other)]
  | cas key' expected value =>
    rw [applySimple] at applied
    split at applied
    · obtain ⟨rfl, -⟩ := Prod.mk.inj (Option.some.inj applied)
      simp [Std.ExtTreeMap.getElem?_insert, Ne.symm (show key ≠ key' from other)]
    · obtain ⟨rfl, -⟩ := Prod.mk.inj (Option.some.inj applied)
      rfl
  | scan leading limit | batch commands => cases keyed

theorem applySimple_agrees {other : Model} {reply : Outcome} (keyed : kind.isKeyed)
    (same : other[kind.key]? = model[kind.key]?) (applied : applySimple model deadline kind = some (next, reply)) :
    ∃ next', applySimple other deadline kind = some (next', reply) ∧ next'[kind.key]? = next[kind.key]? := by
  cases kind with
  | set key value | del key =>
    obtain ⟨rfl, rfl⟩ := Prod.mk.inj (Option.some.inj applied)
    exact ⟨_, rfl, by simp [OperationKind.key]⟩
  | get key =>
    obtain ⟨rfl, rfl⟩ := Prod.mk.inj (Option.some.inj applied)
    have same : other[key]? = model[key]? := same
    exact ⟨other, by rw [applySimple, same], same⟩
  | incr key =>
    obtain ⟨new, sum, shape⟩ := Option.map_eq_some_iff.mp applied
    obtain ⟨rfl, rfl⟩ := Prod.mk.inj shape
    have same : other[key]? = model[key]? := same
    refine ⟨other.insert key ⟨KeyValue.decimal new, none⟩, ?_, by simp [OperationKind.key]⟩
    rw [applySimple, same]
    exact Option.map_eq_some_iff.mpr ⟨new, sum, rfl⟩
  | cas key expected value =>
    have same : other[key]? = model[key]? := same
    rw [applySimple] at applied ⊢
    rw [same]
    split at applied
    next equal =>
      obtain ⟨rfl, rfl⟩ := Prod.mk.inj (Option.some.inj applied)
      exact ⟨_, if_pos equal, by simp [OperationKind.key]⟩
    next differ =>
      obtain ⟨rfl, rfl⟩ := Prod.mk.inj (Option.some.inj applied)
      exact ⟨other, if_neg differ, same⟩
  | scan leading limit | batch commands => cases keyed

theorem applyOperation_keyed (keyed : kind.isKeyed) :
    applyOperation model kind deadline = applySimple model deadline kind := by
  cases kind with
  | batch commands => cases keyed
  | _ => rfl

def Operation.key (operation : Operation) : Bytes := operation.kind.key

theorem Operation.advance_local {operation : Operation} (keyed : operation.kind.isKeyed) :
    Linearization.Local advance Operation.key (fun (model : Model) key => model[key]?) operation where
  frame := by
    intro model next key steps other
    cases advance_iff.mp steps with
    | late timeout applied =>
      rw [applyOperation_keyed keyed] at applied
      exact applySimple_frame keyed applied other
    | failed error | read kind succeeds observed => rfl
    | answered kind succeeds applied =>
      rw [applyOperation_keyed keyed] at applied
      exact applySimple_frame keyed applied other
  agrees := by
    intro model next other same steps
    cases advance_iff.mp steps with
    | late timeout applied =>
      rw [applyOperation_keyed keyed] at applied
      obtain ⟨next', applied', matching⟩ := applySimple_agrees keyed same applied
      rw [← applyOperation_keyed keyed] at applied'
      exact ⟨next', advance_iff.mpr (.late timeout applied'), matching⟩
    | failed error => exact ⟨other, advance_iff.mpr (.failed error), same⟩
    | @read key kind succeeds observed =>
      have mine : operation.key = key := by rw [Operation.key, kind]; rfl
      rw [← mine, ← same] at observed
      rw [← mine] at kind
      exact ⟨other, advance_iff.mpr (.read kind succeeds observed), same⟩
    | answered kind succeeds applied =>
      rw [applyOperation_keyed keyed] at applied
      obtain ⟨next', applied', matching⟩ := applySimple_agrees keyed same applied
      rw [← applyOperation_keyed keyed] at applied'
      exact ⟨next', advance_iff.mpr (.answered kind succeeds applied'), matching⟩

theorem keyInitial_getElem (initial : Model) (key : Bytes) : (keyInitial initial key)[key]? = initial[key]? := by
  unfold keyInitial
  cases held : initial[key]? with
  | none | some value => simp

abbrev onKey (key : Bytes) (operations : List Operation) : List Operation :=
  Linearization.only Operation.key key operations

theorem perKey_getElem (operations : List Operation) (key : Bytes) :
    (perKey operations)[key]? = if onKey key operations = [] then none else some (onKey key operations) := by
  unfold perKey
  induction operations using List.reverseRecOn with
  | nil => simp [onKey, Linearization.only]
  | append_singleton operations operation ih =>
    have split : onKey key (operations ++ [operation]) =
        onKey key operations ++ if operation.kind.key = key then [operation] else [] := by
      by_cases same : operation.kind.key = key <;>
        simp [onKey, Linearization.only, List.filter_append, Operation.key, same]
    rw [List.foldl_append, List.foldl_cons, List.foldl_nil, split, Std.ExtTreeMap.getElem?_insert]
    by_cases same : operation.kind.key = key
    · subst same
      rw [ih]
      by_cases none : onKey operation.kind.key operations = []
      · simp [none]
      · simp [none]
    · simp [same, ih]

theorem mem_perKey {operations part : List Operation} {key : Bytes} :
    (key, part) ∈ (perKey operations).toList ↔ part = onKey key operations ∧ part ≠ [] := by
  rw [Std.ExtTreeMap.mem_toList_iff_getElem?_eq_some, perKey_getElem]
  split
  next none => simp [none]
  next filled =>
    rw [Option.some_inj]
    constructor
    · rintro rfl
      exact ⟨rfl, filled⟩
    · exact fun h => h.1.symm

theorem checkKeys_linearizable {config : CheckerConfig} {visited : Nat} {undecided : Bool}
    (accepted : (checkKeys initial config split visited undecided).isLinearizable) : undecided = false ∧
      ∀ part ∈ split, (checkSingle ⟨part.2⟩ (keyInitial initial part.1) config).isLinearizable := by
  induction split generalizing visited undecided with
  | nil =>
    cases undecided with
    | false => simp
    | true => cases accepted
  | cons part rest ih =>
    obtain ⟨key, operations⟩ := part
    unfold checkKeys at accepted
    cases verdict : checkSingle ⟨operations⟩ (keyInitial initial key) config with
    | linearizable count =>
      rw [verdict] at accepted
      obtain ⟨none, others⟩ := ih accepted
      refine ⟨none, fun part member => ?_⟩
      rcases List.mem_cons.mp member with rfl | member
      · rw [verdict]; rfl
      · exact others part member
    | undecided count =>
      rw [verdict] at accepted
      exact absurd (ih accepted).1 (by decide)
    | notLinearizable witness count =>
      rw [verdict] at accepted
      cases accepted

theorem checkKeys_refuted {config : CheckerConfig} {visited : Nat} {undecided : Bool}
    (refuted : (checkKeys initial config split visited undecided).isRefuted) :
    ∃ part ∈ split, (checkSingle ⟨part.2⟩ (keyInitial initial part.1) config).isRefuted := by
  induction split generalizing visited undecided with
  | nil =>
    cases undecided with
    | false | true => cases refuted
  | cons part rest ih =>
    obtain ⟨key, operations⟩ := part
    unfold checkKeys at refuted
    cases verdict : checkSingle ⟨operations⟩ (keyInitial initial key) config with
    | notLinearizable witness count => exact ⟨_, List.mem_cons_self, by rw [verdict]; rfl⟩
    | linearizable count | undecided count =>
      rw [verdict] at refuted
      obtain ⟨part, member, found⟩ := ih refuted
      exact ⟨part, List.mem_cons_of_mem _ member, found⟩

/-- The histories that are searched for a history: the operations of each key, or all of them. -/
def History.searched (history : History) (initial : Model) : List (List Operation × Model) :=
  let operations := history.strong.operations
  if operations.any fun operation => operation.kind.isScan || operation.kind.isBatch then [(operations, initial)]
  else if (perKey operations).size > 1 then
    (perKey operations).toList.map fun part => (part.2, keyInitial initial part.1)
  else [(operations, initial)]

section Verdicts
variable {history : History} {initial : Model} {config : CheckerConfig}

theorem checkWithInitialRaw_linearizable (accepted : (checkWithInitialRaw history initial config).isLinearizable) :
    ∀ part ∈ history.searched initial, (checkSingle ⟨part.1⟩ part.2 config).isLinearizable := by
  unfold checkWithInitialRaw at accepted
  unfold History.searched
  dsimp only at accepted ⊢
  split at accepted
  next wide =>
    rw [if_pos wide]
    exact fun part member => List.mem_singleton.mp member ▸ accepted
  next narrow =>
    rw [if_neg narrow]
    split at accepted
    next many =>
      rw [if_pos many]
      intro part member
      obtain ⟨⟨key, operations⟩, held, rfl⟩ := List.mem_map.mp member
      exact (checkKeys_linearizable accepted).2 _ held
    next few =>
      rw [if_neg few]
      exact fun part member => List.mem_singleton.mp member ▸ accepted

theorem checkWithInitialRaw_refuted (refuted : (checkWithInitialRaw history initial config).isRefuted) :
    ∃ part ∈ history.searched initial, (checkSingle ⟨part.1⟩ part.2 config).isRefuted := by
  unfold checkWithInitialRaw at refuted
  unfold History.searched
  dsimp only at refuted ⊢
  split at refuted
  next wide =>
    rw [if_pos wide]
    exact ⟨_, List.mem_singleton_self _, refuted⟩
  next narrow =>
    rw [if_neg narrow]
    split at refuted
    next many =>
      rw [if_pos many]
      obtain ⟨part, held, found⟩ := checkKeys_refuted refuted
      exact ⟨_, List.mem_map_of_mem held, found⟩
    next few =>
      rw [if_neg few]
      exact ⟨_, List.mem_singleton_self _, refuted⟩

theorem ordered_iff_searched (forward : ∀ operation ∈ history.strong.operations, timing.Forward operation) :
    Ordered history.strong.operations initial ↔ ∀ part ∈ history.searched initial, Completable part.1 part.2 := by
  have whole : Completable _ initial ↔ Ordered _ initial := completable_iff forward
  unfold History.searched
  dsimp only
  split
  next => simp [whole]
  next narrow =>
    split
    next =>
      have parts : ∀ operation ∈ history.strong.operations, Linearization.Local advance Operation.key
          (fun (model : Model) key => model[key]?) operation := fun operation member =>
        Operation.advance_local (by
          have shape := List.any_eq_false.mp (Bool.not_eq_true _ ▸ narrow) operation member
          simpa [OperationKind.isKeyed] using shape)
      have ends : ∀ key, ∀ operation ∈ onKey key history.strong.operations, timing.Forward operation :=
        fun key operation member => forward operation (Linearization.mem_only.mp member).1
      constructor
      · intro ordered part member
        obtain ⟨⟨key, operations⟩, held, rfl⟩ := List.mem_map.mp member
        obtain ⟨rfl, -⟩ := mem_perKey.mp held
        exact (completable_iff (ends key)).mpr (ordered.only parts (keyInitial_getElem initial key))
      · intro each
        refine Linearization.Linearizable.of_only (history.strong.operations.map Operation.key) parts forward
          (fun operation member => List.mem_map_of_mem member) (keyInitial_getElem initial) fun key member => ?_
        obtain ⟨operation, held, rfl⟩ := List.mem_map.mp member
        refine (completable_iff (ends _)).mp (each _ (List.mem_map_of_mem (mem_perKey.mpr ⟨rfl, ?_⟩)))
        exact List.ne_nil_of_mem (Linearization.mem_only.mpr ⟨held, rfl⟩)
    next => simp [whole]

end Verdicts

end CrashCourse.Checker
