import CrashCourse.Checker.Sessions

/-!
A linearizable verdict and the session report. If nothing that overlaps may have mutated
the key, two reads differ only through the deadline of the value; the report overlooks the
deadline of a batch.
-/

namespace CrashCourse.Checker
open CrashCourse.Core

section Untouched
variable {model next : Model} {deadline : Option Nat} {kind : OperationKind} {reply : Outcome} {key : Bytes}

theorem applySimple_untouched (untouched : kindOutcomeIsMutation kind reply → kind.key ≠ key)
    (done : applySimple model deadline kind = some (next, reply)) : next[key]? = model[key]? := by
  cases kind with
  | scan leading limit | get own =>
    cases done
    rfl
  | batch commands => cases done
  | cas own expected value =>
    rw [applySimple] at done
    split at done
    next equal =>
      cases done
      have apart : own ≠ key := untouched rfl
      simp [Std.ExtTreeMap.getElem?_insert, apart]
    next =>
      cases done
      rfl
  | incr own =>
    obtain ⟨new, -, same⟩ := Option.map_eq_some_iff.mp done
    cases same
    exact applySimple_frame rfl done (Ne.symm (untouched rfl))
  | set own value | del own => exact applySimple_frame rfl done (Ne.symm (untouched (by cases done; rfl)))

theorem key_ne_of_touches (untouched : mutatingKindTouchesKey key kind = false)
    (mutation : kindOutcomeIsMutation kind reply) : kind.key ≠ key := by
  cases kind with
  | get | scan | batch => cases reply <;> cases mutation
  | set | del | incr | cas => simpa [mutatingKindTouchesKey, OperationKind.key] using untouched

theorem mutatesKey_eq {operation : Operation} : mutatesKey operation key =
    (answers operation.kind operation.outcome).any fun pair =>
      pair.1.key == key && kindOutcomeIsMutation pair.1 pair.2 := by
  cases kind : operation.kind with
  | batch commands => cases outcome : operation.outcome with
    | batch replies => simp [mutatesKey, answers, kind, outcome]
    | _ => simp [mutatesKey, answers, isSuccessfulMutation, kind, outcome]
  | _ => simp [mutatesKey, answers, isSuccessfulMutation, kind]

theorem mutatingKindsTouchKey_eq {commands : List OperationKind} :
    mutatingKindsTouchKey key commands = commands.any (mutatingKindTouchesKey key) := by
  induction commands with
  | nil => rfl
  | cons command rest ih => rw [mutatingKindsTouchKey, ih, List.any_cons]

theorem answers_ne_of_touches (untouched : mutatingKindTouchesKey key kind = false) :
    ∀ pair ∈ answers kind reply, kindOutcomeIsMutation pair.1 pair.2 → pair.1.key ≠ key := by
  unfold answers
  split
  next commands replies =>
    rw [mutatingKindTouchesKey, mutatingKindsTouchKey_eq] at untouched
    intro pair member
    exact key_ne_of_touches (by simpa using List.any_eq_false.mp untouched _ (List.of_mem_zip member).1)
  next =>
    intro pair member
    rw [List.mem_singleton.mp member]
    exact key_ne_of_touches untouched

theorem advance_untouched {operation : Operation} (untouched : mayHaveMutatedKey operation key = false)
    (steps : advance model operation = some next) : next[key]? = model[key]? := by
  refine @advance_keeps _ _ _ (fun state => state[key]? = model[key]?) rfl
    (fun reply given pair member _ before after applied same => (applySimple_untouched ?_ applied).trans same) steps
  unfold mayHaveMutatedKey at untouched
  split at untouched
  next timeout => exact answers_ne_of_touches untouched pair member
  next timely =>
    obtain rfl := given timely
    rw [mutatesKey_eq] at untouched
    intro mutation
    have here := List.any_eq_false.mp untouched pair member
    rw [mutation, Bool.and_true] at here
    exact ne_of_beq_false (Bool.not_eq_true _ ▸ here)

end Untouched

/-- Every deadline of the model was set with its value by one of the operations. -/
def Sourced (operations : List Operation) (model : Model) : Prop :=
  ∀ key stored deadline, model[key]? = some stored → stored.deadline = some deadline →
    ∃ operation ∈ operations, operation.deadline = some deadline ∧ .set key stored.value ∈ operation.kind.parts

theorem Sourced.advance {operations : List Operation} {model next : Model} {operation : Operation}
    (sourced : Sourced operations model) (member : operation ∈ operations)
    (steps : advance model operation = some next) : Sourced operations next := by
  refine advance_keeps sourced (fun reply _ pair _ own before after applied sourced => ?_) steps
  intro key stored deadline held limited
  rcases applySimple_deadline applied held with earlier | none | ⟨mine, set⟩
  · exact sourced key stored deadline earlier limited
  · rw [none] at limited
    cases limited
  · exact ⟨operation, member, mine.symm.trans limited, set ▸ own⟩

/-- An order of some operations of a history, among them all that name the key. -/
structure KeyOrder (history : History) (key : Bytes) (operations : List Operation) (model : Model)
    (order : List Operation) : Prop where
  explains : Linearization.Explains timing advance Operation.timedOut operations model order
  within : operations.Sublist history.operations
  named : ∀ operation ∈ history.operations, operation.isStrong → operation.kind.key = key → operation ∈ operations
  permanent : Sourced operations model

variable {operations own : List Operation} {initial : BTreeMap Bytes Bytes} {history : History}

theorem Sourced.of_permanent {model : Model} (permanent : Permanent model) : Sourced operations model := by
  intro key stored deadline held limited
  rw [permanent key stored held] at limited
  cases limited

theorem keyInitial_permanent (own : Bytes) : Permanent (keyInitial (initialModel initial) own) := by
  intro key stored held
  unfold keyInitial at held
  cases first : (initialModel initial)[own]? with
  | none => simp [first] at held
  | some value =>
    rw [first] at held
    dsimp only at held
    rw [Std.ExtTreeMap.getElem?_insert] at held
    split at held
    next =>
      cases held
      exact initialModel_permanent initial own _ first
    next => simp at held

theorem exists_keyOrder {config : CheckerConfig} (accepted : (checkWithInitial history initial config).isLinearizable)
    {operation : Operation} (member : operation ∈ history.operations) (strong : operation.isStrong) :
    ∃ operations model order, KeyOrder history operation.kind.key operations model order := by
  rw [checkWithInitial_isLinearizable] at accepted
  have parts := checkWithInitialRaw_linearizable accepted
  have within : history.strong.operations.Sublist history.operations := List.filter_sublist
  have held : operation ∈ history.strong.operations := List.mem_filter.mpr ⟨member, strong⟩
  unfold History.searched at parts
  dsimp only at parts
  have whole : (checkSingle ⟨history.strong.operations⟩ (initialModel initial) config).isLinearizable →
      ∃ operations model order, KeyOrder history operation.kind.key operations model order := by
    intro found
    obtain ⟨order, explains⟩ := (checkSingle_linearizable found).1.linearizable
    exact ⟨_, _, order, explains, within, fun _ member strong _ => List.mem_filter.mpr ⟨member, strong⟩,
      .of_permanent (initialModel_permanent initial)⟩
  -- the checker searches the whole history if it has scans or batches, and each key otherwise
  split at parts
  next => exact whole (parts _ (List.mem_singleton_self _))
  next =>
    split at parts
    next =>
      have listed : operation ∈ onKey operation.kind.key history.strong.operations :=
        Linearization.mem_only.mpr ⟨held, rfl⟩
      have found := parts _ (List.mem_map_of_mem (mem_perKey.mpr ⟨rfl, List.ne_nil_of_mem listed⟩))
      obtain ⟨order, explains⟩ := (checkSingle_linearizable found).1.linearizable
      refine ⟨_, _, order, explains, List.filter_sublist.trans within, fun other member strong named => ?_,
        .of_permanent (keyInitial_permanent _)⟩
      exact Linearization.mem_only.mpr ⟨List.mem_filter.mpr ⟨member, strong⟩, named⟩
    next => exact whole (parts _ (List.mem_singleton_self _))

theorem happensBefore_iff {left right : Operation} : happensBefore left right ↔ timing.Precedes left right := by
  unfold happensBefore
  rw [Option.any_eq_true]
  constructor
  · rintro ⟨stop, stopped, before⟩
    exact ⟨stop, stopped, of_decide_eq_true before⟩
  · rintro ⟨stop, stopped, before⟩
    exact ⟨stop, stopped, decide_eq_true before⟩

namespace KeyOrder
variable {history : History} {operations : List Operation} {model : Model} {order : List Operation} {key : Bytes}
  {first second : Operation}

section
variable (keyed : KeyOrder history key operations model order)
include keyed

theorem mem_operations :
    ∀ operation ∈ order, operation ∈ operations := by
  obtain ⟨omitted, covers, -⟩ := keyed.explains.covers
  exact fun operation member => covers.mem_iff.mpr (List.mem_append_left omitted member)

theorem mem_order {operation : Operation}
    (member : operation ∈ history.operations) (strong : operation.isStrong) (named : operation.kind.key = key)
    (timely : operation.outcome ≠ .timeout) : operation ∈ order := by
  obtain ⟨omitted, covers, late⟩ := keyed.explains.covers
  rcases List.mem_append.mp (covers.mem_iff.mp (keyed.named operation member strong named)) with member | member
  · exact member
  · exact absurd (late operation member) timely

theorem nodup_ids
    (distinct : (history.operations.map Operation.id).Nodup) : (order.map Operation.id).Nodup := by
  obtain ⟨omitted, covers, -⟩ := keyed.explains.covers
  have inner := distinct.sublist (keyed.within.map Operation.id)
  have outer := (covers.map Operation.id).nodup_iff.mp inner
  rw [List.map_append] at outer
  exact (List.nodup_append.mp outer).1

/-- Between two operations on a key with nothing that mutates it, the key stays as the
first one leaves it. -/
theorem between
    (distinct : (history.operations.map Operation.id).Nodup)
    (here : first ∈ order) (there : second ∈ order) (apart : first ≠ second) (before : happensBefore first second)
    {ends : Nat} (ended : second.complete = some ends)
    (quiet : hasInterveningMutation history key first.invoke ends first.id = false) :
    ∃ earlier after later, Sourced operations earlier ∧ advance earlier first = some after ∧
      later[key]? = after[key]? ∧ (advance later second).isSome := by
  have within := keyed.mem_operations
  have ids := keyed.nodup_ids distinct
  obtain ⟨-, respects, runs⟩ := keyed.explains
  obtain ⟨start, middle, rest, rfl, overlap⟩ := respects.between here there apart (happensBefore_iff.mp before)
  obtain ⟨earlier, ran, runs⟩ := Linearization.foldlM_append_isSome.mp runs
  obtain ⟨after, steps, runs⟩ := Linearization.foldlM_cons_isSome.mp runs
  obtain ⟨later, crossed, runs⟩ := Linearization.foldlM_append_isSome.mp runs
  obtain ⟨last, reads, -⟩ := Linearization.foldlM_cons_isSome.mp runs
  refine ⟨earlier, after, later, ?_, steps, ?_, by rw [reads]; rfl⟩
  · refine Linearization.foldlM_keeps (Sourced operations) (fun operation member => ?_) keyed.permanent ran
    exact fun sourced => sourced.advance (within operation (List.mem_append_left _ member))
  · refine Linearization.foldlM_keeps (fun state => state[key]? = after[key]?)
      (fun operation member state next same moves => ?_) rfl crossed
    refine (advance_untouched ?_ moves).trans same
    -- what stands between the two in the order overlaps them in time, so that the report would have seen it
    by_contra mutates
    rw [Bool.not_eq_false] at mutates
    have inside : operation ∈ start ++ first :: (middle ++ second :: rest) := by simp [member]
    have other : operation.id ≠ first.id := by
      rw [List.map_append, List.map_cons, List.map_append] at ids
      have fresh := (List.nodup_cons.mp (List.nodup_append.mp ids).2.1).1
      intro same
      exact fresh (List.mem_append_left _ (same ▸ List.mem_map_of_mem member))
    have began : operation.invoke ≤ ends :=
      not_lt.mp fun late => (overlap operation member).2 ⟨ends, ended, late⟩
    have stopped : operation.complete.all fun complete => decide (complete ≥ first.invoke) := by
      rw [Option.all_eq_true]
      exact fun stop held => decide_eq_true (not_lt.mp fun early => (overlap operation member).1 ⟨stop, held, early⟩)
    refine absurd quiet (Bool.not_eq_false _ ▸ List.any_eq_true.mpr ⟨operation, ?_, ?_⟩)
    · exact keyed.within.subset (within operation inside)
    · simp [other, began, stopped, mutates]

end

end KeyOrder

section Reads
variable {model : Model} {operation : Operation} {key : Bytes}

theorem observeGet_cases {stored : Option ModelValue} (observed : observeGet stored operation) :
    (∃ value, stored = some value ∧ operation.outcome = .value (some value.value) ∧
      ∀ deadline ∈ value.deadline, operation.invoke < deadline) ∨
    operation.outcome = .value none ∧ ∀ value, stored = some value →
      ∃ deadline ∈ value.deadline, ∃ complete ∈ operation.complete, deadline ≤ complete := by
  unfold observeGet at observed
  dsimp only at observed
  split at observed
  next seen outcome =>
    rw [Bool.and_eq_true, Option.any_eq_true, Option.any_eq_true] at observed
    obtain ⟨⟨value, rfl, visible⟩, value', same, equal⟩ := observed
    cases same
    refine .inl ⟨value, rfl, by rw [outcome, beq_iff_eq.mp equal], fun deadline limited => ?_⟩
    exact of_decide_eq_true ((Option.all_eq_true _ _).mp visible deadline limited)
  next outcome =>
    refine .inr ⟨outcome, ?_⟩
    rintro value rfl
    obtain ⟨deadline, limited, reached⟩ :=
      (Option.any_eq_true _ _).mp ((Option.all_eq_true _ _).mp observed value rfl)
    obtain ⟨complete, stopped, late⟩ := (Option.any_eq_true _ _).mp reached
    exact ⟨deadline, limited, complete, stopped, of_decide_eq_true late⟩
  next => cases observed

theorem observeGet_of_advance (kind : operation.kind = .get key) (succeeds : operation.Succeeds)
    (reads : (advance model operation).isSome) : observeGet model[key]? operation := by
  obtain ⟨next, steps⟩ := Option.isSome_iff_exists.mp reads
  cases advance_iff.mp steps with
  | late timeout applied => exact absurd timeout succeeds.1
  | failed error => exact absurd error succeeds.2
  | @read own same succeeds observed =>
    cases kind.symm.trans same
    exact observed
  | answered other succeeds applied =>
    rw [kind] at other
    cases other

theorem deadline_between {stored : Option ModelValue} {first second : Operation} (seen : observeGet stored first)
    (seen' : observeGet stored second) (differ : first.outcome ≠ second.outcome)
    (before : happensBefore first second) :
    ∃ value deadline, stored = some value ∧ value.deadline = some deadline ∧
      first.outcome = .value (some value.value) ∧ second.outcome = .value none ∧ first.invoke ≤ deadline ∧
      ∃ complete ∈ second.complete, deadline ≤ complete := by
  rcases observeGet_cases seen with ⟨value, rfl, outcome, early⟩ | ⟨outcome, gone⟩
  · rcases observeGet_cases seen' with ⟨value', same, outcome', early'⟩ | ⟨outcome', gone'⟩
    · cases same
      exact absurd (outcome.trans outcome'.symm) differ
    · obtain ⟨deadline, limited, complete, stopped, late⟩ := gone' value rfl
      exact ⟨value, deadline, rfl, limited, outcome, outcome', (early deadline limited).le, complete, stopped, late⟩
  · rcases observeGet_cases seen' with ⟨value, rfl, outcome', early'⟩ | ⟨outcome', gone'⟩
    -- the first one missed it after the deadline, and the second one began later still
    · obtain ⟨deadline, limited, complete, stopped, late⟩ := gone value rfl
      obtain ⟨complete', stopped', began⟩ := happensBefore_iff.mp before
      have same : complete = complete' := Option.some.inj (stopped.symm.trans stopped')
      have early := early' deadline limited
      have began : complete' < second.invoke := began
      omega
    · exact absurd (outcome.trans outcome'.symm) differ

end Reads

section Writes
variable {earlier after : Model} {write read : Operation} {observation : ExpectedObservation}

theorem applied_of_advance {kind : OperationKind} {reply : Outcome} (is : write.kind = kind)
    (outcome : write.outcome = reply) (succeeds : reply ≠ .timeout ∧ reply ≠ .error) (keyed : kind.isKeyed)
    (other : kind.isGet = false) (steps : advance earlier write = some after) :
    applySimple earlier write.deadline kind = some (after, reply) := by
  subst is outcome
  rw [← applyOperation_keyed keyed]
  cases advance_iff.mp steps with
  | late timeout applied => exact absurd timeout succeeds.1
  | failed error => exact absurd error succeeds.2
  | read kind succeeds observed =>
    rw [kind] at other
    cases other
  | answered kind succeeds applied => exact applied

def Leaves (write : Operation) (stored : Option ModelValue) : ExpectedObservation → Prop
  | .value (some value) => stored = some ⟨value, write.deadline⟩ ∨ stored = some ⟨value, none⟩
  | .value none => stored = none
  | .integer value => stored = some ⟨KeyValue.decimal value, none⟩ ∧
      KeyValue.parseI64 (KeyValue.decimal value) = some value

theorem leaves_of_advance (expected : expectedMutationObservation write = some observation)
    (steps : advance earlier write = some after) : Leaves write after[write.kind.key]? observation := by
  unfold expectedMutationObservation at expected
  split at expected
  next key value kind outcome =>
    cases expected
    have applied := applied_of_advance kind outcome (by simp) rfl rfl steps
    rw [kind]
    cases applied
    exact .inl (by simp [OperationKind.key])
  next key expected' value kind outcome =>
    cases expected
    have applied := applied_of_advance kind outcome (by simp) rfl rfl steps
    rw [applySimple] at applied
    rw [kind]
    split at applied
    next =>
      cases applied
      exact .inr (by simp [OperationKind.key])
    next => cases applied
  next key kind outcome =>
    cases expected
    have applied := applied_of_advance kind outcome (by simp) rfl rfl steps
    rw [kind]
    cases applied
    simp [OperationKind.key, Leaves]
  next key value kind outcome =>
    cases expected
    have applied := applied_of_advance kind outcome (by simp) rfl rfl steps
    obtain ⟨new, sum, same⟩ := Option.map_eq_some_iff.mp applied
    rw [kind]
    cases same
    refine ⟨by simp [OperationKind.key], ?_⟩
    unfold KeyValue.checkedAddI64 at sum
    split at sum
    next range =>
      cases sum
      rw [Bool.and_eq_true, decide_eq_true_eq, decide_eq_true_eq] at range
      exact KeyValue.parseI64_decimal range.1 range.2
    next => cases sum
  next => cases expected

theorem Leaves.observed {stored : Option ModelValue} (left : Leaves write stored observation)
    (observed : observeGet stored read)
    (fresh : ¬ write.deadline.any fun deadline => read.complete.all fun complete => decide (complete ≥ deadline)) :
    observationMatches observation read.outcome := by
  -- a read that misses the value has reached its deadline
  have present : ∀ value, stored = some value → value.deadline = write.deadline ∨ value.deadline = none →
      read.outcome = .value (some value.value) := by
    rintro value rfl limit
    rcases observeGet_cases observed with ⟨value', same, outcome, -⟩ | ⟨-, gone⟩
    · cases same
      exact outcome
    obtain ⟨deadline, limited, complete, stopped, late⟩ := gone value rfl
    rcases limit with mine | none
    · refine absurd ((Option.any_eq_true _ _).mpr ⟨deadline, mine ▸ limited, ?_⟩) fresh
      rw [Option.mem_def.mp stopped]
      exact decide_eq_true late
    · rw [none] at limited
      cases limited
  cases observation with
  | value expected => cases expected with
    | none =>
      rcases observeGet_cases observed with ⟨value, same, -⟩ | ⟨outcome, -⟩
      · cases same.symm.trans left
      · rw [outcome]
        rfl
    | some value =>
      rcases left with left | left
      · rw [present _ left (.inl rfl)]
        exact beq_self_eq_true _
      · rw [present _ left (.inr rfl)]
        exact beq_self_eq_true _
  | integer value =>
    rw [present _ left.1 (.inr rfl)]
    simp [observationMatches, outcomeNumeric, left.2]

end Writes

theorem mem_windows {α : Type} {things : List α} {pair : α × α} (member : pair ∈ windows things) :
    pair.1 ∈ things ∧ pair.2 ∈ things :=
  ⟨(List.of_mem_zip member).1, List.mem_of_mem_tail (List.of_mem_zip member).2⟩

theorem rel_of_mem_windows {α : Type} {things : List α} {related : α → α → Prop} (all : things.Pairwise related)
    {pair : α × α} (member : pair ∈ windows things) : related pair.1 pair.2 := by
  induction things with
  | nil => cases member
  | cons first rest ih =>
    obtain ⟨here, later⟩ := List.pairwise_cons.mp all
    cases rest with
    | nil => cases member
    | cons second rest =>
      rcases List.mem_cons.mp member with rfl | member
      · exact here second List.mem_cons_self
      · exact ih later member

theorem pairwise_of_sequential (follow : sequential own) (forward : ∀ operation ∈ own, timing.Forward operation) :
    own.Pairwise fun earlier later => happensBefore earlier later := by
  induction own with
  | nil => exact .nil
  | cons first rest ih =>
    have tail : rest.Pairwise fun earlier later => happensBefore earlier later := by
      refine ih (List.all_eq_true.mpr fun pair member => List.all_eq_true.mp follow pair ?_)
        fun operation member => forward operation (List.mem_cons_of_mem first member)
      cases rest with
      | nil => cases member
      | cons second rest => exact List.mem_cons_of_mem _ member
    refine List.pairwise_cons.mpr ⟨fun later member => ?_, tail⟩
    cases rest with
    | nil => cases member
    | cons second rest =>
      have next : happensBefore first second := List.all_eq_true.mp follow (first, second) List.mem_cons_self
      rcases List.mem_cons.mp member with rfl | member
      · exact next
      -- the first one ends before the second one, which ends before the later one
      obtain ⟨stop, stopped, before⟩ := happensBefore_iff.mp next
      obtain ⟨stop', stopped', before'⟩ := happensBefore_iff.mp ((List.pairwise_cons.mp tail).1 later member)
      have lasts := forward second (List.mem_cons_of_mem first List.mem_cons_self) stop' stopped'
      exact happensBefore_iff.mpr ⟨stop, stopped, (before.trans_le lasts).trans before'⟩

/-- The operation has a deadline between the beginning of one and the end of the other. -/
def Operation.ExpiresBetween (operation earlier later : Operation) : Prop :=
  ∃ deadline ∈ operation.deadline, earlier.invoke ≤ deadline ∧ ∃ complete ∈ later.complete, deadline ≤ complete

/-- What the first of two reads sees and the second misses was set by a batch, with a
deadline between them. -/
def History.ExpiresInBatch (history : History) (earlier later : Operation) : Prop :=
  earlier.kind.key = later.kind.key ∧ later.outcome = .value none ∧
    ∃ operation ∈ history.operations, operation.kind.isBatch ∧
      (∃ value, earlier.outcome = .value (some value) ∧ .set earlier.kind.key value ∈ operation.kind.parts) ∧
      operation.ExpiresBetween earlier later

section Client
variable {history : History} {initial : BTreeMap Bytes Bytes} {config : CheckerConfig} {client : Nat}
  {own : List Operation}

theorem inDomain_iff : inDomain own ↔
    ∀ operation ∈ own, operation.complete.isSome ∧ operation.isStrong ∧ operation.Succeeds := by
  simp [inDomain, Operation.Succeeds, and_assoc]

theorem missedWrites_nil (accepted : (checkWithInitial history initial config).isLinearizable)
    (distinct : (history.operations.map Operation.id).Nodup)
    (inside : ∀ operation ∈ own, operation ∈ history.operations)
    (domain : inDomain own) : missedWrites history client own = [] := by
  refine List.flatMap_eq_nil_iff.mpr fun write member => ?_
  cases expected : expectedMutationObservation write with
  | none => rfl
  | some observation =>
    refine List.filterMap_eq_nil_iff.mpr fun read member' => if_pos ?_
    by_contra violated
    rw [Bool.or_eq_true, not_or] at violated
    obtain ⟨related, missed⟩ := violated
    unfold unrelated at related
    simp only [Bool.or_eq_true, not_or, Bool.not_eq_true', Bool.not_eq_false, bne_iff_ne, ne_eq, not_not] at related
    obtain ⟨⟨⟨⟨isGet, sameKey⟩, before⟩, fresh⟩, quiet⟩ := related
    obtain ⟨-, strong, succeeds⟩ := inDomain_iff.mp domain write member
    obtain ⟨ended, strong', succeeds'⟩ := inDomain_iff.mp domain read member'
    obtain ⟨ends, ended⟩ := Option.isSome_iff_exists.mp ended
    obtain ⟨key, kind⟩ := OperationKind.isGet_iff.mp isGet
    obtain ⟨operations, model, order, keyed⟩ := exists_keyOrder accepted (inside read member') strong'
    rw [ended, Option.getD_some] at quiet
    rw [sameKey] at keyed
    have apart : write ≠ read := by
      rintro rfl
      simp [expectedMutationObservation, kind] at expected
    obtain ⟨earlier, after, later, -, steps, same, reads⟩ := keyed.between distinct
      (keyed.mem_order (inside write member) strong rfl succeeds.1)
      (keyed.mem_order (inside read member') strong' sameKey succeeds'.1) apart before ended
      (Bool.not_eq_true _ ▸ quiet)
    have own : key = write.kind.key := by rw [← sameKey, kind]; rfl
    have observed := observeGet_of_advance kind succeeds' reads
    rw [own, same] at observed
    exact missed ((leaves_of_advance expected steps).observed observed fresh)

/-- Two reads that differ only through a deadline: a batch has set it, if it is on no
operation of the key. -/
theorem expiresInBatch_of_changed (accepted : (checkWithInitial history initial config).isLinearizable)
    (distinct : (history.operations.map Operation.id).Nodup)
    {first second : Operation} (here : first ∈ history.operations) (there : second ∈ history.operations)
    (domain : inDomain [first, second]) (isGet : first.kind.isGet) (isGet' : second.kind.isGet)
    (before : happensBefore first second) (apart : first ≠ second)
    (changed : changedUnexplained history first second) : history.ExpiresInBatch first second := by
  unfold changedUnexplained at changed
  simp only [Bool.and_eq_true, beq_iff_eq, bne_iff_ne, ne_eq, Bool.not_eq_true'] at changed
  obtain ⟨⟨⟨sameKey, differ⟩, unexpired⟩, quiet⟩ := changed
  obtain ⟨-, strong, succeeds⟩ := inDomain_iff.mp domain first List.mem_cons_self
  obtain ⟨ended, strong', succeeds'⟩ := inDomain_iff.mp domain second (by simp)
  obtain ⟨ends, ended⟩ := Option.isSome_iff_exists.mp ended
  obtain ⟨key, kind⟩ := OperationKind.isGet_iff.mp isGet
  obtain ⟨key', kind'⟩ := OperationKind.isGet_iff.mp isGet'
  have own : first.kind.key = key := by rw [kind]; rfl
  obtain rfl : key = key' := by
    rw [kind, kind'] at sameKey
    exact sameKey
  obtain ⟨operations, model, order, keyed⟩ := exists_keyOrder accepted here strong
  rw [ended, Option.getD_some, own] at quiet
  rw [own] at keyed
  obtain ⟨earlier, after, later, sourced, steps, same, reads⟩ := keyed.between distinct
    (keyed.mem_order here strong own succeeds.1)
    (keyed.mem_order there strong' (sameKey.symm.trans own) succeeds'.1) apart before ended quiet
  -- the first read changes nothing itself, so that both look at the same value
  have unmoved : after[key]? = earlier[key]? := by
    refine advance_untouched ?_ steps
    simp [mayHaveMutatedKey, succeeds.1, mutatesKey_eq, kind, answers, kindOutcomeIsMutation]
  have seen := observeGet_of_advance kind succeeds (by rw [steps]; rfl)
  have seen' := observeGet_of_advance kind' succeeds' reads
  rw [same, unmoved] at seen'
  obtain ⟨value, deadline, held, limited, outcome, outcome', late, complete, stopped, reached⟩ :=
    deadline_between seen seen' differ before
  obtain ⟨source, member, set, writes⟩ := sourced key value deadline held limited
  have member := keyed.within.subset member
  refine ⟨sameKey, outcome', source, member, ?_, ⟨value.value, outcome, by rwa [own]⟩, deadline, set, late, complete,
    stopped, reached⟩
  -- a deadline of a single write stands on its own key, where the report looks
  by_contra single
  have placed : source.kind.key = first.kind.key := by
    rw [own]
    cases alone : source.kind with
    | batch commands => simp [alone, OperationKind.isBatch] at single
    | set other value' =>
      rw [alone] at writes
      cases List.mem_singleton.mp writes
      rfl
    | _ =>
      rw [alone] at writes
      cases List.mem_singleton.mp writes
  refine absurd unexpired (Bool.not_eq_false _ ▸ List.any_eq_true.mpr ⟨source, member, ?_⟩)
  simp [placed, set, late, Option.mem_def.mp stopped, reached]

end Client

def History.session (history : History) (client : Nat) : List Operation :=
  sortOperations (history.operations.filter fun operation => operation.client == client)

/-- Whenever a value expires between two reads of the client in a row by the deadline of
a batch, an operation on the key itself has a deadline there as well, or something may
have mutated the key meanwhile. -/
def History.BatchExpiriesCovered (history : History) (client : Nat) : Prop :=
  client ≠ 0 → ∀ pair ∈ windows ((history.session client).filter fun operation => operation.kind.isGet),
    history.ExpiresInBatch pair.1 pair.2 →
      (∃ operation ∈ history.operations, operation.kind.key = pair.1.kind.key ∧
        operation.ExpiresBetween pair.1 pair.2) ∨
      hasInterveningMutation history pair.1.kind.key pair.1.invoke (pair.2.complete.getD pair.2.invoke) pair.1.id

theorem byClient_getElem (operations : List Operation) (client : Nat) : (byClient operations)[client]? =
    if client = 0 ∨ (operations.filter fun operation => operation.client == client) = [] then none
    else some (operations.filter fun operation => operation.client == client) := by
  unfold byClient
  induction operations using List.reverseRecOn with
  | nil => simp
  | append_singleton operations operation ih =>
    rw [List.foldl_append, List.foldl_cons, List.foldl_nil, List.filter_append]
    by_cases mine : operation.client = client
    · subst mine
      have kept : [operation].filter (fun other => other.client == operation.client) = [operation] := by simp
      rw [kept]
      by_cases admin : operation.client = 0
      · rw [if_neg (not_not.mpr admin), ih, if_pos (.inl admin), if_pos (.inl admin)]
      · rw [if_pos admin, Std.ExtTreeMap.getElem?_insert_self, ih]
        by_cases none : operations.filter (fun other => other.client == operation.client) = []
        · simp [none, admin]
        · simp [none, admin]
    · rw [List.filter_cons_of_neg (by simpa using mine), List.filter_nil, List.append_nil, ← ih]
      split
      next => rw [Std.ExtTreeMap.getElem?_insert, if_neg (by simpa using mine)]
      next => rfl

theorem mem_byClient {part : List Operation} {client : Nat} : (client, part) ∈ (byClient operations).toList ↔
      client ≠ 0 ∧ part ≠ [] ∧ part = operations.filter fun operation => operation.client == client := by
  rw [Std.ExtTreeMap.mem_toList_iff_getElem?_eq_some, byClient_getElem]
  split
  next none =>
    constructor
    · rintro ⟨⟩
    · rintro ⟨known, held, rfl⟩
      exact absurd none (not_or.mpr ⟨known, held⟩)
  next held =>
    rw [Option.some_inj]
    constructor
    · rintro rfl
      exact ⟨(not_or.mp held).1, (not_or.mp held).2, rfl⟩
    · rintro ⟨-, -, rfl⟩
      rfl

theorem clientViolations_client {client : Nat} :
    ∀ violation ∈ clientViolations history client own, violation.client = client := by
  intro violation member
  unfold clientViolations at member
  split at member
  next => cases member
  next =>
    rw [List.append_assoc, List.mem_append, List.mem_append] at member
    rcases member with member | member | member
    · obtain ⟨pair, -, made⟩ := List.mem_filterMap.mp member
      dsimp only at made
      split at made <;> cases made
      rfl
    · obtain ⟨write, -, member⟩ := List.mem_flatMap.mp member
      cases expected : expectedMutationObservation write with
      | none => simp [expected] at member
      | some observation =>
        rw [expected] at member
        obtain ⟨read, -, made⟩ := List.mem_filterMap.mp member
        split at made <;> cases made
        rfl
    · obtain ⟨pair, -, made⟩ := List.mem_filterMap.mp member
      dsimp only at made
      split at made <;> cases made
      rfl

theorem violations_iff {client : Nat} :
    (∀ violation ∈ (checkSessionGuarantees history).violations, violation.client ≠ client) ↔
      (client ≠ 0 → clientViolations history client (history.session client) = []) := by
  unfold checkSessionGuarantees
  dsimp only
  constructor
  · intro clean known
    by_cases none : (history.operations.filter fun operation => operation.client == client) = []
    · unfold History.session
      rw [none]
      rfl
    · refine List.eq_nil_iff_forall_not_mem.mpr fun violation member => ?_
      refine clean violation ?_ (clientViolations_client violation member)
      refine List.mem_flatMap.mpr ⟨(client, history.session client), List.mem_map.mpr ⟨(client, _), ?_, rfl⟩, member⟩
      exact mem_byClient.mpr ⟨known, none, rfl⟩
  · intro clean violation member mine
    obtain ⟨session, held, member⟩ := List.mem_flatMap.mp member
    obtain ⟨⟨other, part⟩, inside, rfl⟩ := List.mem_map.mp held
    obtain ⟨known, -, rfl⟩ := mem_byClient.mp inside
    obtain rfl : other = client := (clientViolations_client violation member).symm.trans mine
    have member : violation ∈ clientViolations history other (history.session other) := member
    rw [clean known] at member
    cases member

/-- The operations of the client are answered, strong and one after the other, and its
request sequences do not regress. -/
structure WellFormedClient (history : History) (client : Nat) : Prop where
  domain : inDomain (history.session client)
  follow : sequential (history.session client)
  forward : ∀ operation ∈ history.session client, ∀ complete ∈ operation.complete, operation.invoke ≤ complete
  rising : ∀ earlier ∈ history.session client, ∀ later ∈ history.session client, happensBefore earlier later →
    earlier.sequence ≤ later.sequence

theorem hasPossibleExpiryBetween_iff {earlier later : Operation} :
    hasPossibleExpiryBetween history earlier later ↔ ∃ operation ∈ history.operations,
      operation.kind.key = earlier.kind.key ∧ operation.ExpiresBetween earlier later := by
  simp [hasPossibleExpiryBetween, Operation.ExpiresBetween, Option.any_eq_true]

/-- A client of a linearizable history violates no guarantee just when the deadlines of
batches that its reads run into are covered. -/
theorem linearizable_sessions_iff {history : History} {initial : BTreeMap Bytes Bytes} {config : CheckerConfig}
    {client : Nat} (accepted : (checkWithInitial history initial config).isLinearizable)
    (distinct : (history.operations.map Operation.id).Nodup) (formed : WellFormedClient history client) :
    (∀ violation ∈ (checkSessionGuarantees history).violations, violation.client ≠ client) ↔
      history.BatchExpiriesCovered client := by
  have inside : ∀ operation ∈ history.session client, operation ∈ history.operations := fun operation member =>
    (List.mem_filter.mp ((List.mem_insertionSort _).mp member)).1
  have paired := pairwise_of_sequential formed.follow formed.forward
  have risen : regressions client (history.session client) = [] := by
    refine List.filterMap_eq_nil_iff.mpr fun pair member => if_neg ?_
    obtain ⟨here, there⟩ := mem_windows member
    exact not_lt.mpr (formed.rising _ here _ there (rel_of_mem_windows paired member))
  rw [violations_iff]
  refine imp_congr_right fun _ => ?_
  unfold clientViolations
  rw [if_neg (by simp [formed.domain, formed.follow]), missedWrites_nil accepted distinct inside formed.domain, risen,
    List.nil_append, List.nil_append, changedReads, List.filterMap_eq_nil_iff]
  refine forall₂_congr fun pair member => ?_
  rw [← hasPossibleExpiryBetween_iff]
  dsimp only
  constructor
  · rintro clean ⟨sameKey, missed, -, -, -, ⟨value, seen, -⟩, -⟩
    by_contra uncovered
    rw [not_or, Bool.not_eq_true, Bool.not_eq_true] at uncovered
    simp [changedUnexplained, uncovered.1, uncovered.2, ← sameKey, missed, seen] at clean
  · intro covered
    refine if_neg fun changed => ?_
    obtain ⟨here, there⟩ := mem_windows member
    obtain ⟨here, isGet⟩ := List.mem_filter.mp here
    obtain ⟨there, isGet'⟩ := List.mem_filter.mp there
    have before := rel_of_mem_windows (paired.filter fun operation => operation.kind.isGet) member
    have domain : inDomain [pair.1, pair.2] := inDomain_iff.mpr fun operation either => by
      rcases List.mem_pair.mp either with rfl | rfl
      · exact inDomain_iff.mp formed.domain _ here
      · exact inDomain_iff.mp formed.domain _ there
    have apart : pair.1 ≠ pair.2 := by
      intro same
      obtain ⟨stop, stopped, early⟩ := happensBefore_iff.mp before
      rw [← same] at early
      exact absurd early (not_lt.mpr (formed.forward _ here stop stopped))
    have expires := expiresInBatch_of_changed accepted distinct (inside _ here) (inside _ there) domain isGet isGet'
      before apart changed
    rcases covered expires with expiry | mutation
    · simp [changedUnexplained, expiry] at changed
    · simp [changedUnexplained, mutation] at changed

def readAround (write : OperationKind) (reply : Outcome) (others : List Operation) : History :=
  ⟨.answered 1 2 0 1 write reply (some 10) :: .answered 2 1 2 3 (.get [107]) (.value (some [53])) none ::
    .answered 3 1 20 21 (.get [107]) (.value none) none :: others⟩

def besides : List Operation := [.answered 4 3 4 5 (.batch [.set [106] [49]]) (.batch [.ok]) (some 12)]

theorem linearizable_sessions_readAround :
    (check (readAround (.set [107] [53]) .ok besides) .default).isLinearizable ∧
      ∀ violation ∈ (checkSessionGuarantees (readAround (.set [107] [53]) .ok besides)).violations,
        violation.client ≠ 1 := by
  have accepted : (check (readAround (.set [107] [53]) .ok besides) .default).isLinearizable := by decide +kernel
  refine ⟨accepted, (@linearizable_sessions_iff _ ∅ .default 1 accepted (by decide)
    ⟨by decide +kernel, by decide +kernel, by decide +kernel, by decide +kernel⟩).mpr fun _ pair member _ => .inl ?_⟩
  obtain rfl := List.mem_singleton.mp member
  exact ⟨_, List.mem_cons_self, rfl, 10, rfl, by decide, 21, rfl, by decide⟩

/-- The deadline of a batch is overlooked: the history is accepted, and its client is
reported. -/
theorem readAround_batch_violates :
    (check (readAround (.batch [.set [107] [53]]) (.batch [.ok]) []) .default).isLinearizable ∧
      (checkSessionGuarantees (readAround (.batch [.set [107] [53]]) (.batch [.ok]) [])).violations =
        [⟨1, .monotonicReads, [2, 3], "two sequential strong reads changed without any intervening mutation"⟩] := by
  decide +kernel

end CrashCourse.Checker
