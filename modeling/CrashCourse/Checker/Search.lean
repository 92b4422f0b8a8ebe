import CrashCourse.Checker.Check
import CrashCourse.Linearization.Objects

/-!
The search decides whether the operations left have an order. A memoized state is one from
which none exists, unless the search is still below it; it never comes back there, because
fewer operations are left.
-/

namespace CrashCourse.Checker
open CrashCourse.Core

def timing : Linearization.Timing Operation Nat := ⟨Operation.invoke, Operation.complete⟩

def Operation.timedOut (operation : Operation) : Prop := operation.outcome = .timeout

def advance (model : Model) (operation : Operation) : Option Model :=
  if operation.outcome = .timeout then applyWithoutObservation model operation
  else applyObserved model operation

def Operation.Succeeds (operation : Operation) : Prop :=
  operation.outcome ≠ .timeout ∧ operation.outcome ≠ .error

instance Operation.Succeeds.decidable (operation : Operation) : Decidable operation.Succeeds :=
  inferInstanceAs (Decidable (_ ∧ _))

inductive Advances (model : Model) (operation : Operation) : Model → Prop
  | late {next : Model} {reply : Outcome} (timeout : operation.outcome = .timeout)
      (applied : applyOperation model operation.kind operation.deadline = some (next, reply)) :
      Advances model operation next
  | failed (error : operation.outcome = .error) : Advances model operation model
  | read {key : Bytes} (kind : operation.kind = .get key) (succeeds : operation.Succeeds)
      (observed : observeGet model[key]? operation) : Advances model operation model
  | answered {next : Model} (kind : operation.kind.isGet = false) (succeeds : operation.Succeeds)
      (applied : applyOperation model operation.kind operation.deadline = some (next, operation.outcome)) :
      Advances model operation next

theorem advance_iff {model next : Model} {operation : Operation} :
    advance model operation = some next ↔ Advances model operation next := by
  unfold advance applyWithoutObservation
  constructor
  · intro steps
    split at steps
    next timeout =>
      obtain ⟨⟨next, reply⟩, applied, rfl⟩ := Option.map_eq_some_iff.mp steps
      exact .late timeout applied
    next timely =>
      unfold applyObserved at steps
      split at steps
      next error =>
        cases steps
        exact .failed error
      next sound =>
        split at steps
        next key kind =>
          split at steps
          next observed =>
            cases steps
            exact .read kind ⟨timely, sound⟩ observed
          next => cases steps
        next other =>
          split at steps
          next next' reply applied =>
            split at steps
            next matching =>
              cases steps
              subst matching
              refine .answered ?_ ⟨timely, sound⟩ applied
              cases kind : operation.kind with
              | get key => exact absurd kind (other key)
              | _ => rfl
            next => cases steps
          next => cases steps
  · intro steps
    cases steps with
    | late timeout applied => rw [if_pos timeout, applied]; rfl
    | failed error => simp [applyObserved, error]
    | read kind succeeds observed => simp [applyObserved, succeeds.1, succeeds.2, kind, observed]
    | answered kind succeeds applied =>
      rw [if_neg succeeds.1, applyObserved, if_neg succeeds.2]
      cases shape : operation.kind with
      | get key =>
        rw [shape] at kind
        cases kind
      | _ =>
        rw [shape] at applied
        simp [applied]

/-- Some order of the operations, without some of the timed out ones, explains them. -/
def Ordered (operations : List Operation) (model : Model) : Prop :=
  Linearization.Linearizable timing advance Operation.timedOut operations model

theorem mem_nextModels {model next : Model} {operation : Operation} : next ∈ nextModels model operation ↔
      operation.timedOut ∧ next = model ∨ advance model operation = some next := by
  unfold nextModels advance Operation.timedOut
  split
  next late => simp [late]
  next answered => simp [answered]

namespace History
variable {history : History} {remaining : List history.Index} {model : Model}

def Completes (history : History) (remaining : List history.Index) (model : Model) : Prop :=
  Linearization.Completes timing advance Operation.timedOut (remaining.map history.operation) model

theorem eligible_iff {index : history.Index} : history.eligible index remaining = true ↔
    ∀ other ∈ remaining, other ≠ index → ¬ timing.Precedes (history.operation other) (history.operation index) := by
  unfold eligible
  rw [List.all_eq_true]
  constructor
  · rintro all other member apart ⟨stop, stopped, before⟩
    have stopped : (history.operation other).complete = some stop := stopped
    have before : stop < (history.operation index).invoke := before
    have here := all other (List.mem_finRange other)
    rw [stopped] at here
    simp [apart, before, member] at here
  · intro free other _
    by_cases same : other = index
    · simp [same]
    rw [beq_eq_false_iff_ne.mpr same, Bool.false_or]
    cases stopped : (history.operation other).complete with
    | none => rfl
    | some stop =>
      by_cases member : other ∈ remaining
      · have late : ¬ stop < (history.operation index).invoke :=
          fun before => free other member same ⟨stop, stopped, before⟩
        simp [late]
      · simp [member]

theorem mem_candidates {rest : List history.Index} {next : Model} :
    (rest, next) ∈ history.candidates remaining model ↔ ∃ position index, remaining[position]? = some index ∧
      history.eligible index remaining = true ∧ next ∈ nextModels model (history.operation index) ∧
      rest = remaining.eraseIdx position := by
  unfold candidates
  constructor
  · intro member
    obtain ⟨⟨index, position⟩, place, inside⟩ := List.mem_flatMap.mp member
    have place := List.mem_zipIdx_iff_getElem?.mp place
    dsimp only at inside place
    split at inside
    next allowed =>
      obtain ⟨model', chosen, same⟩ := List.mem_map.mp inside
      obtain ⟨rfl, rfl⟩ := Prod.mk.inj same
      exact ⟨position, index, place, allowed, chosen, rfl⟩
    next => cases inside
  · rintro ⟨position, index, place, allowed, chosen, rfl⟩
    refine List.mem_flatMap.mpr ⟨(index, position), List.mem_zipIdx_iff_getElem?.mpr place, ?_⟩
    dsimp only
    rw [if_pos allowed]
    exact List.mem_map.mpr ⟨next, chosen, rfl⟩

theorem perm_eraseIdx {α : Type} {list : List α} {position : Nat} {thing : α}
    (place : list[position]? = some thing) : list.Perm (thing :: list.eraseIdx position) := by
  obtain ⟨within, rfl⟩ := List.getElem?_eq_some_iff.mp place
  exact (List.getElem_cons_eraseIdx_perm within).symm

theorem completes_iff_candidate (model : Model) (nodup : remaining.Nodup) (left : remaining ≠ []) :
    history.Completes remaining model ↔
      ∃ candidate ∈ history.candidates remaining model, history.Completes candidate.1 candidate.2 := by
  constructor
  · intro completes
    have step : ∃ operation rest next, (remaining.map history.operation).Perm (operation :: rest) ∧
        (∀ other ∈ rest, ¬ timing.Precedes other operation) ∧ next ∈ nextModels model operation ∧
        Linearization.Completes timing advance Operation.timedOut rest next := by
      generalize shape : remaining.map history.operation = operations
      unfold History.Completes at completes
      rw [shape] at completes
      cases completes with
      | done => exact absurd (List.map_eq_nil_iff.mp shape) left
      | skip split free may later => exact ⟨_, _, _, split, free, mem_nextModels.mpr (.inl ⟨may, rfl⟩), later⟩
      | take split free steps later => exact ⟨_, _, _, split, free, mem_nextModels.mpr (.inr steps), later⟩
    obtain ⟨operation, rest, next, split, free, chosen, later⟩ := step
    obtain ⟨index, member, rfl⟩ := List.mem_map.mp (split.mem_iff.mpr List.mem_cons_self)
    obtain ⟨position, place⟩ := List.mem_iff_getElem?.mp member
    have taken := perm_eraseIdx place
    have same : (history.operation index :: rest).Perm
        (history.operation index :: (remaining.eraseIdx position).map history.operation) :=
      split.symm.trans (taken.map history.operation)
    have rests := List.perm_cons _ |>.mp same
    refine ⟨(remaining.eraseIdx position, next), mem_candidates.mpr ⟨position, index, place, ?_, chosen, rfl⟩,
      later.perm rests.symm⟩
    rw [eligible_iff]
    intro other inside apart
    refine free _ (rests.mem_iff.mpr (List.mem_map_of_mem ?_))
    rcases List.mem_cons.mp (taken.mem_iff.mp inside) with same | inside
    · exact absurd same apart
    · exact inside
  · rintro ⟨⟨rest, next⟩, member, later⟩
    obtain ⟨position, index, place, allowed, chosen, rfl⟩ := mem_candidates.mp member
    have taken := perm_eraseIdx place
    have free : ∀ other ∈ (remaining.eraseIdx position).map history.operation,
        ¬ timing.Precedes other (history.operation index) := by
      intro other inside
      obtain ⟨index', held, rfl⟩ := List.mem_map.mp inside
      refine eligible_iff.mp allowed index' (taken.mem_iff.mpr (List.mem_cons_of_mem _ held)) ?_
      rintro rfl
      exact (List.nodup_cons.mp (taken.nodup_iff.mp nodup)).1 held
    rcases mem_nextModels.mp chosen with ⟨late, rfl⟩ | steps
    · exact .skip (taken.map history.operation) free late later
    · exact .take (taken.map history.operation) free steps later

end History

theorem memoState_inj {left right : Model} (same : memoState left = memoState right) : left = right := by
  have pairs : left.toList = right.toList := by
    have unpack := congrArg (List.map fun entry : Bytes × Bytes × Option Nat =>
      (entry.1, (⟨entry.2.1, entry.2.2⟩ : ModelValue))) same
    simpa [memoState, List.map_map, Function.comp_def] using unpack
  exact Std.ExtTreeMap.ext_toList (List.Perm.of_eq pairs)

section Decides
variable {history : History} {config : CheckerConfig}

/-- No memoized state with at most so many operations left can be completed. -/
def Dead (history : History) (bound : Nat) (memo : List (MemoKey history.operations.length)) : Prop :=
  ∀ key ∈ memo, key.remaining.length ≤ bound → ∀ model, memoState model = key.state →
    ¬ history.Completes key.remaining model

/-- What the end of a search says about its goal: whether something was `left` to do,
the visits it started from, and that what was dead in the memo still is. -/
structure Settles (config : CheckerConfig) (goal left : Prop)
    (start : SearchState history.operations.length)
    (outcome : SearchResult × SearchState history.operations.length) : Prop where
  counts : start.visited ≤ outcome.2.visited
  found : outcome.1 = .found → goal ∧ (left → outcome.2.visited ≤ config.maxStates)
  notFound : outcome.1 = .notFound → ¬ goal ∧ outcome.2.visited ≤ config.maxStates ∧
    ∀ bound, Dead history bound start.memo → Dead history bound outcome.2.memo
  undecided : outcome.1 = .undecided → config.maxStates < outcome.2.visited

theorem tryAll_settles {fuel : Nat} (calls : ∀ remaining model state, remaining.length = fuel → remaining.Nodup →
      (state.visited ≤ config.maxStates → Dead history fuel state.memo) →
      Settles config (history.Completes remaining model) (remaining ≠ []) state
        (search history config fuel remaining model state)) {candidates : List (List history.Index × Model)}
    (sizes : ∀ candidate ∈ candidates, candidate.1.length = fuel ∧ candidate.1.Nodup) (sawUndecided : Bool)
    (state : SearchState history.operations.length)
    (spent : sawUndecided = true → config.maxStates < state.visited ∧ fuel ≠ 0)
    (alive : sawUndecided = false → state.visited ≤ config.maxStates ∧ Dead history fuel state.memo) :
    Settles config (∃ candidate ∈ candidates, history.Completes candidate.1 candidate.2) (candidates ≠ []) state
      (tryAll (fun (remaining, model) => search history config fuel remaining model) candidates sawUndecided
        state) := by
  induction candidates generalizing sawUndecided state with
  | nil =>
    unfold tryAll
    cases sawUndecided with
    | true => exact ⟨le_rfl, by simp, by simp, fun _ => (spent rfl).1⟩
    | false => exact ⟨le_rfl, by simp, fun _ => ⟨by simp, (alive rfl).1, fun _ dead => dead⟩, by simp⟩
  | cons candidate rest ih =>
    obtain ⟨remaining, model⟩ := candidate
    obtain ⟨size, nodup⟩ := sizes _ List.mem_cons_self
    dsimp only at size nodup
    have later := fun other member => sizes other (List.mem_cons_of_mem _ member)
    have usable : state.visited ≤ config.maxStates → Dead history fuel state.memo := by
      intro within
      cases sawUndecided with
      | true => exact absurd (spent rfl).1 (not_lt.mpr within)
      | false => exact (alive rfl).2
    have call := calls remaining model state size nodup usable
    have empty : fuel = 0 → search history config fuel remaining model state = (.found, state) := by
      rintro rfl
      rw [List.length_eq_zero_iff.mp size, search]
    unfold tryAll
    dsimp only at call ⊢
    generalize search history config fuel remaining model state = outcome at call empty
    obtain ⟨result, state'⟩ := outcome
    obtain ⟨counts, found, notFound, undecided⟩ := call
    dsimp only at counts found notFound undecided empty ⊢
    cases result with
    | found =>
      refine ⟨counts, fun _ => ⟨⟨_, List.mem_cons_self, (found rfl).1⟩, fun _ => ?_⟩, by simp, by simp⟩
      by_cases last : fuel = 0
      · obtain ⟨-, rfl⟩ := Prod.mk.inj (empty last)
        cases sawUndecided with
        | true => exact absurd last (spent rfl).2
        | false => exact (alive rfl).1
      · exact (found rfl).2 fun none => last (by rw [← size, none, List.length_nil])
    | undecided =>
      have exceeded := undecided rfl
      have nonzero : fuel ≠ 0 := fun last => absurd (Prod.mk.inj (empty last)).1 (by decide)
      obtain ⟨counts', found', notFound', undecided'⟩ :=
        ih later true state' (fun _ => ⟨exceeded, nonzero⟩) (by simp)
      refine ⟨counts.trans counts', fun done => ?_, fun done => ?_, undecided'⟩
      · obtain ⟨other, member, completes⟩ := (found' done).1
        refine ⟨⟨other, List.mem_cons_of_mem _ member, completes⟩, fun _ => (found' done).2 ?_⟩
        exact List.ne_nil_of_mem member
      · exact absurd (exceeded.trans_le counts') (not_lt.mpr (notFound' done).2.1)
    | notFound =>
      obtain ⟨stuck, within, kept⟩ := notFound rfl
      have fresh : sawUndecided = false := by
        cases sawUndecided with
        | true => exact absurd ((spent rfl).1.trans_le counts) (not_lt.mpr within)
        | false => rfl
      obtain ⟨counts', found', notFound', undecided'⟩ := ih later sawUndecided state'
        (by simp [fresh]) fun _ => ⟨within, kept fuel (usable (counts.trans within))⟩
      refine ⟨counts.trans counts', fun done => ?_, fun done => ?_, undecided'⟩
      · obtain ⟨other, member, completes⟩ := (found' done).1
        refine ⟨⟨other, List.mem_cons_of_mem _ member, completes⟩, fun _ => (found' done).2 ?_⟩
        exact List.ne_nil_of_mem member
      · obtain ⟨none, within', kept'⟩ := notFound' done
        refine ⟨?_, within', fun bound dead => kept' bound (kept bound dead)⟩
        rintro ⟨other, member, completes⟩
        rcases List.mem_cons.mp member with rfl | member
        · exact stuck completes
        · exact none ⟨other, member, completes⟩

theorem candidate_size {remaining : List history.Index} (model : Model) {fuel : Nat}
    (size : remaining.length = fuel + 1) (nodup : remaining.Nodup) :
    ∀ candidate ∈ history.candidates remaining model, candidate.1.length = fuel ∧ candidate.1.Nodup := by
  rintro ⟨rest, next⟩ member
  obtain ⟨position, index, place, -, -, rfl⟩ := History.mem_candidates.mp member
  have taken := History.perm_eraseIdx place
  have length := taken.length_eq
  rw [size, List.length_cons] at length
  exact ⟨(Nat.succ.inj length).symm, (List.nodup_cons.mp (taken.nodup_iff.mp nodup)).2⟩

theorem search_settles (fuel : Nat) (remaining : List history.Index) (model : Model)
    (state : SearchState history.operations.length) (size : remaining.length = fuel) (nodup : remaining.Nodup)
    (alive : state.visited ≤ config.maxStates → Dead history fuel state.memo) :
    Settles config (history.Completes remaining model) (remaining ≠ []) state
      (search history config fuel remaining model state) := by
  induction fuel generalizing remaining model state with
  | zero =>
    rw [List.length_eq_zero_iff.mp size, search]
    exact ⟨le_rfl, fun _ => ⟨.done, fun left => absurd rfl left⟩, by simp, by simp⟩
  | succ fuel ih =>
    cases remaining with
    | nil => cases size
    | cons index rest =>
      have goal := History.completes_iff_candidate model nodup (List.cons_ne_nil index rest)
      unfold search
      dsimp only
      split
      next exceeded => exact ⟨Nat.le_succ _, by simp, by simp, fun _ => exceeded⟩
      next within =>
        have dead := alive (by omega)
        split
        next seen =>
          have member := List.contains_iff_mem.mp seen
          refine ⟨Nat.le_succ _, by simp, fun _ => ⟨?_, not_lt.mp within, fun _ dead => dead⟩, by simp⟩
          exact dead _ member size.le model rfl
        next =>
          have loop := tryAll_settles ih (candidate_size model size nodup) false
            ⟨state.visited + 1, ⟨index :: rest, memoState model⟩ :: state.memo⟩ (by simp) fun _ => by
              refine ⟨not_lt.mp within, fun key member short => ?_⟩
              rcases List.mem_cons.mp member with rfl | member
              · dsimp only at short
                omega
              · exact dead key member (by omega)
          obtain ⟨counts, found, notFound, undecided⟩ := loop
          refine ⟨(Nat.le_succ _).trans counts, fun done => ?_, fun done => ?_, undecided⟩
          · refine ⟨goal.mpr (found done).1, fun _ => (found done).2 ?_⟩
            obtain ⟨other, member, -⟩ := (found done).1
            exact List.ne_nil_of_mem member
          · obtain ⟨none, within', kept⟩ := notFound done
            -- no candidate can be completed, so the state that was memoized on the way in is dead
            have stuck : ¬ history.Completes (index :: rest) model := fun completes => none (goal.mp completes)
            refine ⟨stuck, within', fun bound dead => kept bound fun key member short model' same => ?_⟩
            rcases List.mem_cons.mp member with rfl | member
            · rwa [memoState_inj same]
            · exact dead key member short model' same

end Decides

def Completable (operations : List Operation) (model : Model) : Prop :=
  Linearization.Completes timing advance Operation.timedOut operations model

def Exhausts (operations : List Operation) (initial : Model) (config : CheckerConfig) : Prop :=
  config.maxStates < (searchAll ⟨operations⟩ initial config).2.visited

section Single
variable {operations : List Operation} {initial : Model} {config : CheckerConfig}

theorem completable_iff (forward : ∀ operation ∈ operations, timing.Forward operation) :
    Completable operations initial ↔ Ordered operations initial := Linearization.completes_iff forward

theorem searchAll_settles : Settles config (Completable operations initial) (operations ≠ []) ⟨0, []⟩
    (searchAll ⟨operations⟩ initial config) := by
  have all : (List.finRange operations.length).map (History.operation ⟨operations⟩) = operations :=
    List.map_get_finRange operations
  have settles := @search_settles ⟨operations⟩ config operations.length (List.finRange _)
    initial ⟨0, []⟩ (List.length_finRange) (List.nodup_finRange _) fun _ key member => by cases member
  unfold History.Completes at settles
  rw [all] at settles
  obtain ⟨counts, found, notFound, undecided⟩ := settles
  refine ⟨counts, fun done => ⟨(found done).1, fun filled => (found done).2 fun empty => filled ?_⟩, notFound, undecided⟩
  exact List.length_eq_zero_iff.mp (by rw [← List.length_finRange (n := operations.length), empty]; rfl)

theorem checkSingle_linearizable (accepted : (checkSingle ⟨operations⟩ initial config).isLinearizable) :
    Completable operations initial ∧ ¬ Exhausts operations initial config := by
  have settles := @searchAll_settles operations initial config
  unfold Exhausts
  cases operations with
  | nil => exact ⟨.done, Nat.not_lt_zero _⟩
  | cons first rest =>
    unfold checkSingle at accepted
    generalize searchAll ⟨first :: rest⟩ initial config = outcome at settles accepted ⊢
    obtain ⟨result, state⟩ := outcome
    cases result with
    | found =>
      obtain ⟨completes, within⟩ := settles.found rfl
      exact ⟨completes, not_lt.mpr (within (List.cons_ne_nil first rest))⟩
    | notFound | undecided => cases accepted

theorem checkSingle_refuted (refuted : (checkSingle ⟨operations⟩ initial config).isRefuted) :
    ¬ Completable operations initial ∧ ¬ Exhausts operations initial config := by
  have settles := @searchAll_settles operations initial config
  unfold Exhausts
  cases operations with
  | nil => cases refuted
  | cons first rest =>
    unfold checkSingle at refuted
    generalize searchAll ⟨first :: rest⟩ initial config = outcome at settles refuted ⊢
    obtain ⟨result, state⟩ := outcome
    cases result with
    | notFound =>
      obtain ⟨stuck, within, -⟩ := settles.notFound rfl
      exact ⟨stuck, not_lt.mpr within⟩
    | found | undecided => cases refuted

end Single

end CrashCourse.Checker
