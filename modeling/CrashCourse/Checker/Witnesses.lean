import CrashCourse.Checker.Check

/-!
The reduction of a refuted history. Answers are cached by ids; if these are distinct, each
is the verdict on the part it is looked up for.
-/

namespace CrashCourse.Checker
open List

def refuted (initial : Model) (config : CheckerConfig) (operations : List Operation) : Bool :=
  (checkWithInitialRaw ⟨operations⟩ initial config).isRefuted

def History.select (history : History) (ids : List Nat) : List Operation :=
  history.operations.filter fun operation => decide (operation.id ∈ ids)

/-- A reduction of the operations, whose ids are distinct. -/
structure Reduction where
  initial : Model
  config : CheckerConfig
  budget : Nat
  operations : List Operation
  distinct : (operations.map Operation.id).Nodup

namespace Reduction
variable {task : Reduction} {part other candidate last : List Operation} {state next : OracleState}

def fails (task : Reduction) (part : List Operation) : Bool := refuted task.initial task.config part

structure Sound (task : Reduction) (state : OracleState) : Prop where
  calls : state.calls ≤ task.budget
  cache : ∀ {part result}, part <+ task.operations →
    state.cache[(part.map Operation.id).mergeSort]? = some result → result = task.fails part

structure Candidate (task : Reduction) (part : List Operation) : Prop where
  within : part <+ task.operations
  fails : task.fails part

theorem mem_of_id {operation : Operation} (within : part <+ task.operations) (member : operation ∈ task.operations)
    (held : operation.id ∈ part.map Operation.id) : operation ∈ part := by
  obtain ⟨twin, here, id⟩ := mem_map.mp held
  rwa [← inj_on_of_nodup_map task.distinct (within.subset here) member id]

theorem sublist_ext (one : part <+ task.operations) (two : other <+ task.operations)
    (same : ∀ id, id ∈ part.map Operation.id ↔ id ∈ other.map Operation.id) : part = other := by
  have nodup := task.distinct.of_map
  rw [← nodup.perm_iff_eq_of_sublist one two, perm_ext_iff_of_nodup (nodup.sublist one) (nodup.sublist two)]
  intro operation
  constructor
  · exact fun member => mem_of_id two (one.subset member) ((same _).mp (mem_map_of_mem member))
  · exact fun member => mem_of_id one (two.subset member) ((same _).mpr (mem_map_of_mem member))

theorem witnessOracle_spec {answer : Option Bool} (sound : task.Sound state)
    (sub : part <+ task.operations) (asked : witnessOracle part task.initial task.config task.budget state = (answer, next)) :
    task.Sound next ∧
    (answer = some (task.fails part) ∨ answer = none ∧ task.budget ≤ state.calls) := by
  unfold witnessOracle at asked
  dsimp only at asked
  split at asked
  next result hit =>
    cases asked
    exact ⟨sound, .inl (by rw [sound.cache sub hit])⟩
  next =>
    split at asked
    next spent =>
      cases asked
      exact ⟨sound, .inr ⟨rfl, spent⟩⟩
    next room =>
      cases asked
      refine ⟨⟨Nat.lt_of_not_le room, fun {other result} within hit => ?_⟩, .inl rfl⟩
      rw [Std.ExtTreeMap.getElem?_insert] at hit
      split at hit
      next same =>
        have ids := Std.LawfulEqCmp.eq_of_compare same
        obtain rfl : part = other := sublist_ext sub within fun id => by
          rw [← mem_mergeSort, ids, mem_mergeSort]
        exact (Option.some.inj hit).symm
      next => exact sound.cache within hit

theorem dropChunk_spec {chunk : Nat} {starts : List Nat} {found : Option (List Operation)}
    (sound : task.Sound state) (sub : candidate <+ task.operations)
    (done : dropChunk task.initial task.config task.budget candidate chunk starts state = (found, next)) :
    task.Sound next ∧
    ∀ reduced, found = some reduced → task.Candidate reduced := by
  induction starts generalizing state with
  | nil =>
    cases done
    exact ⟨sound, fun _ found => by cases found⟩
  | cons start rest ih =>
    have shorter : candidate.take start ++ candidate.drop (start + chunk) <+ candidate := by
      conv => rhs; rw [← take_append_drop start candidate]
      rw [← drop_drop]
      exact (Sublist.refl _).append (drop_sublist _ _)
    unfold dropChunk at done
    split at done
    · cases done
      exact ⟨sound, fun _ found => by cases found⟩
    dsimp only at done
    split at done
    · exact ih sound done
    split at done
    next asked =>
      obtain ⟨kept, answer | ⟨answer, -⟩⟩ := witnessOracle_spec sound (shorter.trans sub) asked
      · cases done
        refine ⟨kept, fun reduced found => ?_⟩
        cases found
        exact ⟨shorter.trans sub, (Option.some.inj answer).symm⟩
      · cases answer
    next asked => exact ih (witnessOracle_spec sound (shorter.trans sub) asked).1 done

theorem dropChunks_spec {fuel granularity : Nat} (sound : task.Sound state)
    (start : task.Candidate candidate)
    (done : dropChunks task.initial task.config task.budget fuel candidate granularity state = (last, next)) :
    task.Sound next ∧ task.Candidate last := by
  induction fuel generalizing candidate granularity state with
  | zero =>
    cases done
    exact ⟨sound, start⟩
  | succ fuel ih =>
    unfold dropChunks at done
    split at done
    · cases done
      exact ⟨sound, start⟩
    dsimp only at done
    split at done
    next reduced _ round =>
      obtain ⟨kept, shorter⟩ := dropChunk_spec sound start.within round
      exact ih kept (shorter reduced rfl) done
    next round =>
      obtain ⟨kept, -⟩ := dropChunk_spec sound start.within round
      split at done
      · cases done
        exact ⟨kept, start⟩
      · exact ih kept start done

theorem dropOne_spec {indexes : List Nat} {found : Option (Option (List Operation))}
    (sound : task.Sound state) (sub : candidate <+ task.operations)
    (inside : ∀ index ∈ indexes, index < candidate.length)
    (done : dropOne task.initial task.config task.budget candidate indexes state = (found, next)) :
    task.Sound next ∧
    (∀ reduced, found = some (some reduced) →
      task.Candidate reduced ∧ reduced.length < candidate.length) ∧
    (found = some none → ∀ index ∈ indexes, task.fails (candidate.eraseIdx index) = false) := by
  induction indexes generalizing state with
  | nil =>
    cases done
    exact ⟨sound, fun _ found => (by cases found), fun _ _ member => absurd member not_mem_nil⟩
  | cons index rest ih =>
    have within := (eraseIdx_sublist candidate index).trans sub
    have shorter := length_eraseIdx_of_lt (inside index mem_cons_self)
    unfold dropOne at done
    split at done
    · cases done
      exact ⟨sound, fun _ found => (by cases found), fun found => (by cases found)⟩
    next room =>
      dsimp only at done
      split at done
      next asked =>
        obtain ⟨kept, answer | ⟨answer, -⟩⟩ := witnessOracle_spec sound within asked
        · cases done
          refine ⟨kept, fun reduced found => ?_, fun found => by cases found⟩
          cases found
          exact ⟨⟨within, (Option.some.inj answer).symm⟩, by have := inside index mem_cons_self; omega⟩
        · cases answer
      next fails asked =>
        obtain ⟨kept, answer | ⟨-, spent⟩⟩ := witnessOracle_spec sound within asked
        · obtain ⟨sound', found', none'⟩ := ih kept (fun index member => inside index (mem_cons_of_mem _ member)) done
          refine ⟨sound', found', fun found => forall_mem_cons.mpr ⟨?_, none' found⟩⟩
          rw [← Bool.not_eq_true]
          exact fun refuted => fails (by rw [answer, refuted])
        · exact absurd spent room

theorem dropOnes_spec {fuel : Nat} {minimal : Bool} (sound : task.Sound state)
    (start : task.Candidate candidate) (enough : candidate.length < fuel)
    (done : dropOnes task.initial task.config task.budget fuel candidate state = (last, minimal, next)) :
    task.Sound next ∧ task.Candidate last ∧
    (minimal → ∀ index < last.length, task.fails (last.eraseIdx index) = false) := by
  induction fuel generalizing candidate state with
  | zero => omega
  | succ fuel ih =>
    have inside : ∀ index ∈ (range candidate.length).reverse, index < candidate.length := by simp
    unfold dropOnes at done
    split at done
    next pass =>
      cases done
      exact ⟨(dropOne_spec sound start.within inside pass).1, start, fun minimal => by cases minimal⟩
    next reduced _ pass =>
      obtain ⟨kept, shorter, -⟩ := dropOne_spec sound start.within inside pass
      obtain ⟨found, less⟩ := shorter reduced rfl
      exact ih kept found (by omega) done
    next pass =>
      obtain ⟨kept, -, stuck⟩ := dropOne_spec sound start.within inside pass
      cases done
      exact ⟨kept, start, fun _ index below => stuck rfl index (by simpa using below)⟩

theorem select_map {history : History} (same : history.operations = task.operations) (within : part <+ task.operations) :
    history.select (part.map Operation.id) = part := by
  rw [History.select, same]
  refine sublist_ext filter_sublist within fun id => ⟨fun member => ?_, fun member => ?_⟩
  · obtain ⟨operation, held, rfl⟩ := mem_map.mp member
    exact of_decide_eq_true (mem_filter.mp held).2
  · obtain ⟨operation, held, rfl⟩ := mem_map.mp member
    exact mem_map_of_mem (mem_filter.mpr ⟨within.subset held, decide_eq_true member⟩)

end Reduction

/-- What the reduction returns fails by itself, and called minimal it can spare
nothing. -/
theorem minimized_witness (history : History) (initial : Model) (config : CheckerConfig) (budget : Nat)
    (distinct : (history.operations.map Operation.id).Nodup) (witness : Witness)
    (found : minimizeWitnessWithInitial initial config budget history = some witness) :
    witness.operationIds ⊆ history.operations.map Operation.id ∧
    refuted initial config (history.select witness.operationIds) ∧ witness.oracleCalls ≤ budget ∧
    (witness.oneMinimal → ∀ index < (history.select witness.operationIds).length,
      refuted initial config ((history.select witness.operationIds).eraseIdx index) = false) := by
  let task : Reduction := ⟨initial, config, budget, history.operations, distinct⟩
  have fresh : task.Sound ⟨0, ∅⟩ := ⟨Nat.zero_le _, fun _ hit => by simp at hit⟩
  unfold minimizeWitnessWithInitial at found
  split at found
  next state asked =>
    obtain ⟨sound, answer | ⟨answer, -⟩⟩ := Reduction.witnessOracle_spec fresh (Sublist.refl _) asked
    · dsimp only at found
      generalize chunks : dropChunks initial config budget _ history.operations 2 state = first at found
      obtain ⟨candidate, middle⟩ := first
      generalize ones : dropOnes initial config budget _ candidate middle = second at found
      obtain ⟨last, minimal, final⟩ := second
      obtain ⟨kept, shorter⟩ := Reduction.dropChunks_spec sound ⟨.refl _, (Option.some.inj answer).symm⟩ chunks
      have enough := Nat.lt_succ_of_le shorter.within.length_le
      obtain ⟨sound', ⟨within, fails⟩, stuck⟩ := Reduction.dropOnes_spec kept shorter enough ones
      cases Option.some.inj found
      dsimp only
      rw [Reduction.select_map rfl within]
      exact ⟨(within.map _).subset, fails, sound'.calls, stuck⟩
    · cases answer
  next => cases found

def strayRead : History :=
  ⟨[.answered 1 0 0 1 (.set [107] [53]) .ok none, .answered 2 0 2 3 (.get [108]) (.value (some [53])) none]⟩

theorem minimized_witness_strayRead : ∃ witness, minimizeWitnessWithInitial ∅ .default 9 strayRead = some witness ∧
    refuted ∅ .default (strayRead.select witness.operationIds) ∧ witness.oracleCalls ≤ 9 := by
  have some_ : (minimizeWitnessWithInitial ∅ .default 9 strayRead).isSome := by decide +kernel
  obtain ⟨witness, found⟩ := Option.isSome_iff_exists.mp some_
  obtain ⟨-, fails, calls, -⟩ := minimized_witness strayRead ∅ .default 9 (by decide) witness found
  exact ⟨witness, found, fails, calls⟩

end CrashCourse.Checker
