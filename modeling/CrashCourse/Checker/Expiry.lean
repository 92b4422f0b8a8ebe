import CrashCourse.Checker.Specification
import CrashCourse.KeyValue.Scans

/-!
Histories with deadlines. The checker keeps no clock: a read may see or miss a value as
its interval allows, but every other operation takes an expired value for one that is
there, and an increment forgets the deadline of its key.
-/

namespace CrashCourse.Checker
open CrashCourse.Core
open CrashCourse.KeyValue (parseI64 checkedAddI64 decimal filter_take_eq_iff)

def ModelValue.alive (now : Nat) (stored : ModelValue) : Bool :=
  stored.deadline.all fun deadline => decide (now < deadline)

def present (now : Nat) (store : Model) : Model := store.filter fun _ stored => stored.alive now

def serveAt (store : Model) (stamped : Nat × Operation) : Option Model :=
  serve (present stamped.1) store stamped.2

/-- Each operation takes effect at an instant of its interval, and the store answers
as was observed. -/
structure TimedOrder (operations : List Operation) (initial : Model) (order : List (Nat × Operation)) : Prop where
  covers : ∃ omitted, operations.Perm (order.map Prod.snd ++ omitted) ∧ ∀ operation ∈ omitted, operation.timedOut
  inside : ∀ stamped ∈ order, stamped.2.invoke ≤ stamped.1 ∧ ∀ complete ∈ stamped.2.complete, stamped.1 ≤ complete
  sorted : order.Pairwise fun left right => left.1 ≤ right.1
  runs : (order.foldlM serveAt initial).isSome

/-! What misleads the checker: values that are stored and have expired, and deadlines that
it has forgotten. -/

/-- The value of a key that has expired. -/
def hidden (now : Nat) (store : Model) (key : Bytes) : Option Bytes :=
  (store[key]?.filter fun stored => !stored.alive now).map ModelValue.value

def listed (leading : Option Bytes) (store : Model) : List (Bytes × ModelValue) :=
  store.toList.filter fun entry => leading.all fun leading => leading.isPrefixOf entry.1

/-- The command does the same, and answers the same where that is observed, if what has
expired is taken for there. -/
def harmless (observed : Bool) (now : Nat) (store : Model) : OperationKind → Bool
  | .get key => !observed || (hidden now store key).isNone
  | .scan leading limit => !observed || ((listed leading store).take limit).all fun entry => entry.2.alive now
  | .cas key expected _ => (hidden now store key).all fun value => decide (expected ≠ none ∧ expected ≠ some value)
  | .incr key => (hidden now store key).all fun value => decide ((parseI64 value).getD 0 = 0)
  | .set .. | .del _ | .batch _ => true

/-- The keys whose deadline the checker does not know: it forgets that of a key it
increments, until the key is written anew. -/
def forgets (now : Nat) (store : Model) (forgotten : List Bytes) : OperationKind → List Bytes
  | .set key _ | .del key => forgotten.filter (· != key)
  | .cas key expected _ =>
    if (present now store)[key]?.map ModelValue.value = expected then forgotten.filter (· != key) else forgotten
  | .incr key => if (present now store)[key]?.isSome then key :: forgotten else forgotten.filter (· != key)
  | .get _ | .scan .. | .batch _ => forgotten

def harmlessAll (observed : Bool) (now : Nat) (deadline : Option Nat) : Model → List OperationKind → Bool
  | _, [] => true
  | store, first :: rest => harmless observed now store first &&
    (command (present now) store deadline first).all fun result => harmlessAll observed now deadline result.1 rest

def forgetsAll (now : Nat) (deadline : Option Nat) : Model → List Bytes → List OperationKind → List Bytes
  | _, forgotten, [] => forgotten
  | store, forgotten, first :: rest =>
    match command (present now) store deadline first with
    | none => forgotten
    | some (next, _) => forgetsAll now deadline next (forgets now store forgotten first) rest

section Operation
variable (now : Nat) (store : Model) (forgotten : List Bytes) (operation : Operation)

/-- Neither an error nor a refusal has an effect; a read of its own may miss what has
expired, if the checker knows the deadline. -/
def harmlessAt : Bool :=
  decide (operation.outcome = .error) || (respond (present now) store operation.kind operation.deadline).isNone ||
    match operation.kind with
    | .get key => decide (operation.outcome = .timeout) || (hidden now store key).isNone || !forgotten.contains key
    | kind => harmlessAll (decide (operation.outcome ≠ .timeout)) now operation.deadline store kind.parts

def forgetsAt : List Bytes :=
  if operation.outcome = .error ∨ respond (present now) store operation.kind operation.deadline = none then forgotten
  else forgetsAll now operation.deadline store forgotten operation.kind.parts

end Operation

def trackAt (state : Model × List Bytes) (stamped : Nat × Operation) : Option (Model × List Bytes) :=
  (serveAt state.1 stamped).map fun next => (next, forgetsAt stamped.1 state.1 state.2 stamped.2)

/-- No step of the order misleads the checker. -/
def unmisled (initial : Model) (order : List (Nat × Operation)) : Bool :=
  Linearization.along trackAt (fun state stamped => harmlessAt stamped.1 state.1 state.2 stamped.2) (initial, []) order

def known (forgotten : List Bytes) (store : Model) : Model :=
  store.map fun key stored => if forgotten.contains key then ⟨stored.value, none⟩ else stored

section Known
variable {now : Nat} {store next : Model} {forgotten : List Bytes} {key : Bytes}

theorem present_getElem : (present now store)[key]? = store[key]?.filter (ModelValue.alive now) :=
  Std.ExtTreeMap.getElem?_filter'

theorem hidden_cases (now : Nat) (store : Model) (key : Bytes) :
    hidden now store key = none ∧ (present now store)[key]? = store[key]? ∨
      ∃ stored, store[key]? = some stored ∧ stored.alive now = false ∧ hidden now store key = some stored.value ∧
        (present now store)[key]? = none := by
  rw [present_getElem, hidden]
  cases store[key]? with
  | none => exact .inl ⟨rfl, rfl⟩
  | some stored => cases alive : stored.alive now <;> simp [Option.filter, alive]

theorem known_getElem : (known forgotten store)[key]? =
    store[key]?.map fun stored => if key ∈ forgotten then ⟨stored.value, none⟩ else stored := by
  simp only [known, Std.ExtTreeMap.getElem?_map, List.contains_iff_mem]

@[simp] theorem value_of_forgotten {stored : ModelValue} {lost : Prop} [Decidable lost] :
    (if lost then (⟨stored.value, none⟩ : ModelValue) else stored).value = stored.value := by
  split <;> rfl

theorem known_value : (known forgotten store)[key]?.map ModelValue.value = store[key]?.map ModelValue.value := by
  rw [known_getElem, Option.map_map]
  exact congrArg (Option.map · _) (funext fun stored => value_of_forgotten)

theorem known_insert (value : ModelValue) :
    known (forgotten.filter (· != key)) (store.insert key value) = (known forgotten store).insert key value := by
  refine Std.ExtTreeMap.ext_getElem? fun other => ?_
  rw [known_getElem, Std.ExtTreeMap.getElem?_insert, Std.ExtTreeMap.getElem?_insert, known_getElem]
  by_cases same : key = other
  · simp [same]
  · simp [same, Ne.symm same]

theorem known_insert_forgotten (value : Bytes) (deadline : Option Nat) :
    known (key :: forgotten) (store.insert key ⟨value, deadline⟩) = (known forgotten store).insert key ⟨value, none⟩ := by
  refine Std.ExtTreeMap.ext_getElem? fun other => ?_
  rw [known_getElem, Std.ExtTreeMap.getElem?_insert, Std.ExtTreeMap.getElem?_insert, known_getElem]
  by_cases same : key = other
  · simp [same]
  · simp [same, Ne.symm same]

theorem known_erase : known (forgotten.filter (· != key)) (store.erase key) = (known forgotten store).erase key := by
  refine Std.ExtTreeMap.ext_getElem? fun other => ?_
  rw [known_getElem, Std.ExtTreeMap.getElem?_erase, Std.ExtTreeMap.getElem?_erase, known_getElem]
  by_cases same : key = other
  · simp [same]
  · simp [same, Ne.symm same]

theorem known_nil : known [] store = store := by
  refine Std.ExtTreeMap.ext_getElem? fun key => ?_
  rw [known_getElem]
  simp

theorem listed_known (leading : Option Bytes) : (listed leading (known forgotten store)).map
    (fun entry => (entry.1, entry.2.value)) = (listed leading store).map fun entry => (entry.1, entry.2.value) := by
  unfold listed known
  rw [Std.ExtTreeMap.toList_map, List.filter_map, List.map_map]
  refine List.map_congr_left fun entry _ => ?_
  dsimp only [Function.comp]
  split <;> rfl

theorem listed_present (leading : Option Bytes) :
    listed leading (present now store) = (listed leading store).filter fun entry => entry.2.alive now := by
  unfold listed present
  rw [Std.ExtTreeMap.toList_filter, List.filter_filter, List.filter_filter]
  exact List.filter_congr fun entry _ => Bool.and_comm ..

end Known

section Commands
variable {observed : Bool} {now : Nat} {store next model : Model} {forgotten : List Bytes} {deadline : Option Nat}
  {kind : OperationKind} {reply : Outcome}

theorem applySimple_known_incr {key : Bytes} (fine : harmless observed now store (.incr key))
    (done : command (present now) store deadline (.incr key) = some (next, reply)) :
    applySimple (known forgotten store) deadline (.incr key) =
      some (known (forgets now store forgotten (.incr key)) next, reply) := by
  rw [command] at done
  rw [applySimple, known_getElem, forgets]
  rcases hidden_cases now store key with ⟨-, same⟩ | ⟨stored, held, -, gone, none⟩
  -- both count from the same value, and the checker forgets its deadline
  · rw [same] at done ⊢
    cases held : store[key]? with
    | none =>
      rw [held] at done
      cases done
      simp [known_insert, checkedAddI64]
    | some stored =>
      rw [held] at done
      obtain ⟨new, sum, same⟩ := Option.map_eq_some_iff.mp done
      obtain ⟨old, number, sum⟩ := Option.bind_eq_some_iff.mp sum
      cases same
      simp [number, sum, known_insert_forgotten]
  -- the store starts anew where the checker counts on from zero
  · rw [none] at done ⊢
    cases done
    have zero : (parseI64 stored.value).getD 0 = 0 := by simpa [harmless, gone] using fine
    simp [held, zero, known_insert, checkedAddI64]

theorem applySimple_known_cas {key value : Bytes} {expected : Option Bytes}
    (fine : harmless observed now store (.cas key expected value))
    (done : command (present now) store deadline (.cas key expected value) = some (next, reply)) :
    applySimple (known forgotten store) deadline (.cas key expected value) =
      some (known (forgets now store forgotten (.cas key expected value)) next, reply) := by
  rw [command] at done
  rw [applySimple, known_value, forgets]
  rcases hidden_cases now store key with ⟨-, same⟩ | ⟨stored, held, -, gone, none⟩
  · rw [same] at done ⊢
    split at done
    next equal =>
      cases done
      rw [if_pos equal, if_pos equal, known_insert]
    next differ =>
      cases done
      rw [if_neg differ, if_neg differ]
  · have apart : expected ≠ .none ∧ expected ≠ some stored.value := by simpa [harmless, gone] using fine
    rw [none, Option.map_none, if_neg (Ne.symm apart.1)] at done
    cases done
    rw [held, none, Option.map_some, Option.map_none, if_neg (Ne.symm apart.2), if_neg (Ne.symm apart.1)]

theorem applySimple_known (fine : harmless observed now store kind)
    (done : command (present now) store deadline kind = some (next, reply)) :
    ∃ reply', applySimple (known forgotten store) deadline kind =
      some (known (forgets now store forgotten kind) next, reply') ∧ (observed → reply' = reply) := by
  cases kind with
  | set key value =>
    cases done
    exact ⟨.ok, by rw [forgets, known_insert]; rfl, fun _ => rfl⟩
  | del key =>
    cases done
    exact ⟨.ok, by rw [forgets, known_erase]; rfl, fun _ => rfl⟩
  | get key =>
    cases done
    refine ⟨_, rfl, fun watched => ?_⟩
    rw [known_value]
    rcases hidden_cases now store key with ⟨-, same⟩ | ⟨stored, -, -, gone, -⟩
    · rw [same]
    · simp [harmless, watched, gone] at fine
  | scan leading limit =>
    cases done
    refine ⟨_, rfl, fun watched => ?_⟩
    have all : ∀ entry ∈ (listed leading store).take limit, entry.2.alive now := by
      simpa [harmless, watched] using fine
    have cut := (filter_take_eq_iff (fun _ _ => rfl) (listed leading store) limit).mpr
      (show KeyValue.CutHolds (fun _ => true) (fun entry => entry.2.alive now) _ _ from
        ⟨fun entry member _ => all entry member, .inl all⟩)
    rw [List.filter_true] at cut
    change Outcome.scan (((listed leading (known forgotten store)).map _).take limit) =
      .scan (((listed leading (present now store)).map _).take limit)
    rw [listed_known, listed_present, ← List.map_take, ← List.map_take, cut]
  | incr key => exact ⟨reply, applySimple_known_incr fine done, fun _ => rfl⟩
  | cas key expected value => exact ⟨reply, applySimple_known_cas fine done, fun _ => rfl⟩
  | batch parts => cases done

theorem harmless_of_known (done : command (present now) store deadline kind = some (next, reply))
    (same : applySimple (known forgotten store) deadline kind = some (model, reply)) :
    harmless true now store kind := by
  cases kind with
  | set key value | del key | batch parts => rfl
  | get key =>
    rw [command, Option.some_inj, Prod.mk.injEq] at done
    rw [applySimple, known_value, Option.some_inj, Prod.mk.injEq, ← done.2] at same
    rcases hidden_cases now store key with ⟨gone, -⟩ | ⟨stored, held, -, gone, none⟩
    · simp [harmless, gone]
    · rw [none, held] at same
      cases same.2
  | scan leading limit =>
    rw [command, Option.some_inj, Prod.mk.injEq] at done
    rw [applySimple, Option.some_inj, Prod.mk.injEq, ← done.2] at same
    have cut : ((listed leading (known forgotten store)).map fun entry => (entry.1, entry.2.value)).take limit =
        ((listed leading (present now store)).map fun entry => (entry.1, entry.2.value)).take limit :=
      Outcome.scan.inj same.2
    rw [listed_known, listed_present, ← List.map_take, ← List.map_take] at cut
    simp only [harmless, Bool.not_true, Bool.false_or, List.all_eq_true]
    intro entry member
    -- an entry that is listed has its key and value among what is present, and a key is listed once
    obtain ⟨other, inside, equal⟩ := List.mem_map.mp (cut ▸ List.mem_map_of_mem member)
    obtain ⟨there, alive⟩ := List.mem_filter.mp (List.mem_of_mem_take inside)
    have found : ∀ entry ∈ listed leading store, store[entry.1]? = some entry.2 := fun entry member =>
      Std.ExtTreeMap.mem_toList_iff_getElem?_eq_some.mp (List.mem_filter.mp member).1
    have mine := found entry (List.mem_of_mem_take member)
    rw [← (Prod.mk.inj equal).1, found other there] at mine
    rwa [← Option.some.inj mine]
  | incr key =>
    rcases hidden_cases now store key with ⟨gone, -⟩ | ⟨stored, held, -, gone, none⟩
    · simp [harmless, gone]
    rw [command, none] at done
    cases done
    rw [applySimple, known_getElem, held] at same
    obtain ⟨new, sum, same⟩ := Option.map_eq_some_iff.mp same
    cases same
    simp only [Option.map_some, Option.bind_some, value_of_forgotten] at sum
    simp only [harmless, gone, Option.all_some, decide_eq_true_eq]
    unfold checkedAddI64 at sum
    split at sum
    next =>
      have sum := Option.some.inj sum
      omega
    next => cases sum
  | cas key expected value =>
    rcases hidden_cases now store key with ⟨gone, -⟩ | ⟨stored, held, -, gone, none⟩
    · simp [harmless, gone]
    rw [command, none] at done
    rw [applySimple, known_value, held] at same
    simp only [harmless, gone, Option.all_some, decide_eq_true_eq]
    constructor
    · rintro rfl
      rw [Option.map_none, if_pos rfl] at done
      cases done
      cases same
    · rintro rfl
      cases done
      rw [Option.map_some, if_pos rfl] at same
      cases same

end Commands

section Batches
variable {observed : Bool} {now : Nat} {store next model : Model} {forgotten : List Bytes} {deadline : Option Nat}
  {kind : OperationKind} {reply : Outcome} {parts : List OperationKind} {earlier replies : List Outcome}

theorem applyCommands_known (fine : harmlessAll observed now deadline store parts)
    (done : commands (present now) deadline store parts = some (next, replies)) :
    ∃ replies', applyCommands deadline (known forgotten store) parts earlier =
      some (known (forgetsAll now deadline store forgotten parts) next, earlier ++ replies') ∧
        (observed → replies' = replies) := by
  induction parts generalizing store forgotten earlier replies with
  | nil =>
    cases done
    exact ⟨[], by rw [List.append_nil]; rfl, fun _ => rfl⟩
  | cons first rest ih =>
    obtain ⟨middle, reply, others, head, tail, rfl⟩ := commands_cons.mp done
    rw [harmlessAll, head, Option.all_some, Bool.and_eq_true] at fine
    obtain ⟨reply', applied, same⟩ :=
      @applySimple_known observed now store middle forgotten deadline first reply fine.1 head
    obtain ⟨replies', carried, sames⟩ :=
      @ih middle (forgets now store forgotten first) (earlier ++ [reply']) others fine.2 tail
    refine ⟨reply' :: replies', ?_, fun watched => by rw [same watched, sames watched]⟩
    unfold applyCommands forgetsAll
    rw [applied, head]
    dsimp only
    rw [carried, List.append_assoc]
    rfl

theorem harmlessAll_of_known (done : commands (present now) deadline store parts = some (next, replies))
    (same : applyCommands deadline (known forgotten store) parts earlier = some (model, earlier ++ replies)) :
    harmlessAll true now deadline store parts := by
  induction parts generalizing store forgotten earlier replies with
  | nil => rfl
  | cons first rest ih =>
    obtain ⟨middle, reply, others, head, tail, rfl⟩ := commands_cons.mp done
    unfold applyCommands at same
    cases applied : applySimple (known forgotten store) deadline first with
    | none =>
      rw [applied] at same
      cases same
    | some result =>
      obtain ⟨after, reply'⟩ := result
      rw [applied] at same
      dsimp only at same
      -- the replies of the rest are behind the first one, so the first one is the observed one
      rw [applyCommands_eq] at same
      obtain ⟨⟨last, later⟩, carried, equal⟩ := Option.map_eq_some_iff.mp same
      obtain ⟨rfl, behind⟩ := Prod.mk.inj equal
      rw [List.append_assoc] at behind
      obtain ⟨rfl, rfl⟩ := List.cons.inj (List.append_cancel_left behind)
      have here := harmless_of_known head applied
      obtain ⟨_, known, -⟩ := @applySimple_known true now store middle forgotten deadline first reply' here head
      obtain ⟨rfl, -⟩ := Prod.mk.inj (Option.some.inj (applied.symm.trans known))
      rw [harmlessAll, here, head, Option.all_some, Bool.true_and]
      exact ih tail carried

theorem applyOperation_known (fine : harmlessAll observed now deadline store kind.parts)
    (done : respond (present now) store kind deadline = some (next, reply)) :
    ∃ reply', applyOperation (known forgotten store) kind deadline =
      some (known (forgetsAll now deadline store forgotten kind.parts) next, reply') ∧ (observed → reply' = reply) := by
  cases kind with
  | batch parts =>
    unfold respond at done
    unfold applyOperation
    dsimp only at done ⊢
    split at done
    next => cases done
    next filled =>
      obtain ⟨⟨last, replies⟩, carried, same⟩ := Option.map_eq_some_iff.mp done
      cases same
      obtain ⟨replies', applied, sames⟩ :=
        @applyCommands_known observed now store last forgotten deadline parts [] replies fine carried
      refine ⟨.batch replies', ?_, fun watched => by rw [sames watched]⟩
      rw [if_neg (by simp [filled, commands_isBatch carried]), applied]
      rfl
  | _ =>
    unfold respond at done
    dsimp only at done
    dsimp only [OperationKind.parts] at fine ⊢
    rw [harmlessAll, Bool.and_eq_true] at fine
    obtain ⟨reply', applied, same⟩ := applySimple_known fine.1 done
    refine ⟨reply', ?_, same⟩
    rw [forgetsAll, done]
    exact applied

theorem harmlessAll_of_applyOperation (done : respond (present now) store kind deadline = some (next, reply))
    (same : applyOperation (known forgotten store) kind deadline = some (model, reply)) :
    harmlessAll true now deadline store kind.parts := by
  cases kind with
  | batch parts =>
    unfold respond at done
    unfold applyOperation at same
    dsimp only at done same
    split at done
    next => cases done
    next filled =>
      obtain ⟨⟨last, replies⟩, carried, equal⟩ := Option.map_eq_some_iff.mp done
      cases equal
      rw [if_neg (by simp [filled, commands_isBatch carried])] at same
      obtain ⟨⟨last', replies'⟩, applied, equal⟩ := Option.map_eq_some_iff.mp same
      cases equal
      exact harmlessAll_of_known carried applied
  | _ =>
    unfold respond at done
    unfold applyOperation at same
    dsimp only at done same
    dsimp only [OperationKind.parts]
    rw [harmlessAll, harmless_of_known done same, done]
    rfl

end Batches

section Steps
variable {now : Nat} {store next model : Model} {forgotten : List Bytes} {operation : Operation} {key : Bytes}

theorem observeGet_known_iff (began : operation.invoke ≤ now) (ended : ∃ complete ∈ operation.complete, now ≤ complete)
    (shown : operation.outcome = .value ((present now store)[key]?.map ModelValue.value)) :
    observeGet (known forgotten store)[key]? operation ↔ hidden now store key = none ∨ key ∉ forgotten := by
  obtain ⟨complete, stopped, bound⟩ := ended
  unfold observeGet
  rw [shown, Option.mem_def.mp stopped, known_getElem]
  rcases hidden_cases now store key with ⟨gone, same⟩ | ⟨stored, held, expired, gone, none⟩
  · rw [same, gone]
    cases held : store[key]? with
    | none => simp
    | some stored =>
      have alive : stored.alive now := by
        rw [present_getElem, held, Option.filter_eq_some_iff] at same
        exact same.2
      have visible : stored.deadline.all fun deadline => decide (operation.invoke < deadline) := by
        rw [ModelValue.alive, Option.all_eq_true] at alive
        rw [Option.all_eq_true]
        exact fun deadline limited => decide_eq_true (began.trans_lt (of_decide_eq_true (alive deadline limited)))
      by_cases lost : key ∈ forgotten <;> simp [lost, visible]
  · have absent : stored.deadline.any fun deadline => decide (complete ≥ deadline) := by
      rw [ModelValue.alive, Option.all_eq_false] at expired
      obtain ⟨deadline, limited, late⟩ := expired
      rw [Option.any_eq_true]
      exact ⟨deadline, limited, decide_eq_true ((not_lt.mp (of_decide_eq_false late)).trans bound)⟩
    rw [none, held, gone]
    by_cases lost : key ∈ forgotten
    · simp [lost]
    · simpa [lost] using absent

theorem harmlessAt_iff {result : Model × Outcome} (sound : operation.outcome ≠ .error)
    (done : respond (present now) store operation.kind operation.deadline = some result)
    (other : operation.kind.isGet = false) : harmlessAt now store forgotten operation ↔
      harmlessAll (decide (operation.outcome ≠ .timeout)) now operation.deadline store operation.kind.parts := by
  unfold harmlessAt
  rw [done]
  cases kind : operation.kind with
  | get key => simp [kind, OperationKind.isGet] at other
  | _ => simp [sound]

theorem harmlessAt_get_iff (succeeds : operation.Succeeds) (kind : operation.kind = .get key) :
    harmlessAt now store forgotten operation ↔ hidden now store key = none ∨ key ∉ forgotten := by
  simp [harmlessAt, kind, succeeds.1, succeeds.2, respond, command]

theorem respond_of_serve (succeeds : operation.Succeeds) (served : serve (present now) store operation = some next) :
    respond (present now) store operation.kind operation.deadline = some (next, operation.outcome) := by
  rw [serve_succeeds succeeds] at served
  obtain ⟨⟨after, reply⟩, done, same⟩ := Option.bind_eq_some_iff.mp served
  dsimp only at same
  split at same
  next equal =>
    cases same
    rw [done, equal]
  next => cases same

variable (began : operation.invoke ≤ now)
  (ended : operation.Succeeds → ∃ complete ∈ operation.complete, now ≤ complete)
  (served : serve (present now) store operation = some next)
include began ended served

theorem advance_known_of_succeeds (succeeds : operation.Succeeds) (fine : harmlessAt now store forgotten operation) :
    advance (known forgotten store) operation = some (known (forgetsAt now store forgotten operation) next) := by
  have done := respond_of_serve succeeds served
  rw [forgetsAt, if_neg (by simp [succeeds.2, done])]
  refine advance_iff.mpr ?_
  cases isGet : operation.kind.isGet with
  | false =>
    have fine := (harmlessAt_iff succeeds.2 done isGet).mp fine
    obtain ⟨reply, applied, same⟩ := applyOperation_known fine done
    rw [same (decide_eq_true succeeds.1)] at applied
    exact .answered isGet succeeds applied
  | true =>
    obtain ⟨key, kind⟩ := OperationKind.isGet_iff.mp isGet
    have fine := (harmlessAt_get_iff succeeds kind).mp fine
    rw [kind] at done ⊢
    obtain ⟨rfl, shown⟩ := Prod.mk.inj (Option.some.inj done)
    exact .read kind succeeds ((observeGet_known_iff began (ended succeeds) shown.symm).mpr fine)

/-- Where a step does no harm, the checker takes it from what it knows to what it then
knows; it may leave it out if it timed out without effect. -/
theorem advance_known (fine : harmlessAt now store forgotten operation) :
    advance (known forgotten store) operation = some (known (forgetsAt now store forgotten operation) next) ∨
      operation.timedOut ∧ known (forgetsAt now store forgotten operation) next = known forgotten store := by
  by_cases error : operation.outcome = .error
  · obtain rfl : store = next := by simpa [serve, error] using served
    rw [forgetsAt, if_pos (.inl error)]
    exact .inl (advance_iff.mpr (.failed error))
  by_cases timeout : operation.outcome = .timeout
  · rw [serve, timeout] at served
    cases done : respond (present now) store operation.kind operation.deadline with
    | none =>
      rw [done] at served
      cases served
      rw [forgetsAt, if_pos (.inr done)]
      exact .inr ⟨timeout, rfl⟩
    | some result =>
      rw [done] at served
      cases served
      rw [forgetsAt, if_neg (by simp [error, done])]
      cases isGet : operation.kind.isGet with
      | false =>
        obtain ⟨reply, applied, -⟩ := applyOperation_known ((harmlessAt_iff error done isGet).mp fine) done
        exact .inl (advance_iff.mpr (.late timeout applied))
      | true =>
        obtain ⟨key, kind⟩ := OperationKind.isGet_iff.mp isGet
        rw [kind] at done ⊢
        cases done
        exact .inr ⟨timeout, rfl⟩
  · exact .inl (advance_known_of_succeeds began ended served ⟨timeout, error⟩ fine)

theorem harmlessAt_of_advance (answered : ¬ operation.timedOut)
    (steps : advance (known forgotten store) operation = some model) : harmlessAt now store forgotten operation := by
  by_cases error : operation.outcome = .error
  · simp [harmlessAt, error]
  have succeeds : operation.Succeeds := ⟨answered, error⟩
  have done := respond_of_serve succeeds served
  cases advance_iff.mp steps with
  | late timeout applied => exact absurd timeout answered
  | failed error => exact absurd error succeeds.2
  | @read key kind _ observed =>
    rw [kind] at done
    obtain ⟨rfl, shown⟩ := Prod.mk.inj (Option.some.inj done)
    exact (harmlessAt_get_iff succeeds kind).mpr
      ((observeGet_known_iff began (ended succeeds) shown.symm).mp observed)
  | answered other _ applied =>
    rw [harmlessAt_iff succeeds.2 done other, decide_eq_true (show operation.outcome ≠ .timeout from answered)]
    exact harmlessAll_of_applyOperation done applied

end Steps

theorem trackAt_runs {order : List (Nat × Operation)} {store : Model} (forgotten : List Bytes)
    (runs : (order.foldlM serveAt store).isSome) : (order.foldlM trackAt (store, forgotten)).isSome := by
  induction order generalizing store forgotten with
  | nil => rfl
  | cons stamped rest ih =>
    obtain ⟨next, served, runs⟩ := Linearization.foldlM_cons_isSome.mp runs
    refine Linearization.foldlM_cons_isSome.mpr ⟨(next, forgetsAt stamped.1 store forgotten stamped.2), ?_, ih _ runs⟩
    rw [trackAt, served]
    rfl

namespace TimedOrder
variable {operations : List Operation} {initial : Model} {order : List (Nat × Operation)}

theorem respects (explained : TimedOrder operations initial order) : timing.Respects (order.map Prod.snd) := by
  refine List.pairwise_map.mpr (explained.sorted.imp_of_mem ?_)
  rintro left right here there before ⟨stop, stopped, early⟩
  have ended := (explained.inside right there).2 stop stopped
  have began := (explained.inside left here).1
  exact absurd early (not_lt.mpr (began.trans (before.trans ended)))

section
variable (ended : ∀ operation ∈ operations, operation.Succeeds → operation.complete.isSome)
include ended

theorem ends (explained : TimedOrder operations initial order) {stamped : Nat × Operation} (member : stamped ∈ order)
    (succeeds : stamped.2.Succeeds) : ∃ complete ∈ stamped.2.complete, stamped.1 ≤ complete := by
  obtain ⟨omitted, covers, -⟩ := explained.covers
  have held : stamped.2 ∈ operations :=
    covers.mem_iff.mpr (List.mem_append_left omitted (List.mem_map_of_mem member))
  obtain ⟨complete, stopped⟩ := Option.isSome_iff_exists.mp (ended _ held succeeds)
  exact ⟨complete, stopped, (explained.inside _ member).2 complete stopped⟩

theorem ordered (explained : TimedOrder operations initial order) (fine : unmisled initial order) :
    Ordered operations initial := by
  have follows : ∀ stamped ∈ order, Linearization.Follows
      (Linearization.guarded trackAt fun state stamped => harmlessAt stamped.1 state.1 state.2 stamped.2)
      (fun model stamped => advance model stamped.2) (fun stamped => stamped.2.timedOut)
      (fun state model => model = known state.2 state.1) stamped := by
    rintro stamped member state next model rfl tracked
    unfold Linearization.guarded at tracked
    split at tracked
    next fine =>
      obtain ⟨store, served, rfl⟩ := Option.map_eq_some_iff.mp tracked
      rcases advance_known (explained.inside _ member).1 (explained.ends ended member) served fine with steps | late
      · exact .inl ⟨_, steps, rfl⟩
      · exact .inr ⟨late.1, late.2.symm⟩
    next => cases tracked
  have runs := (Linearization.guarded_runs trackAt _).mpr ⟨trackAt_runs [] explained.runs, fine⟩
  obtain ⟨kept, dropped, split, within, late, runs⟩ := Linearization.Follows.runs follows known_nil.symm runs
  obtain ⟨omitted, covers, late'⟩ := explained.covers
  -- steps that timed out without effect are left out, like those that the order omits
  refine ⟨kept.map Prod.snd, ⟨dropped.map Prod.snd ++ omitted, ?_, fun operation member => ?_⟩, ?_, ?_⟩
  · rw [← List.append_assoc, ← List.map_append]
    exact covers.trans ((split.map Prod.snd).append_right omitted)
  · rcases List.mem_append.mp member with member | member
    · obtain ⟨stamped, held, rfl⟩ := List.mem_map.mp member
      exact late stamped held
    · exact late' operation member
  · exact explained.respects.of_sublist (within.map Prod.snd)
  · rwa [List.foldlM_map]

/-- If no operation timed out, the checker can take the steps of the order itself only
if none of them misleads it. -/
theorem unmisled_of_runs (explained : TimedOrder operations initial order)
    (answered : ∀ operation ∈ operations, operation.outcome ≠ .timeout)
    (runs : ((order.map Prod.snd).foldlM advance initial).isSome) : unmisled initial order := by
  obtain ⟨omitted, covers, -⟩ := explained.covers
  have inside := explained.inside
  have ends := fun stamped member => @ends _ _ _ ended explained stamped member
  have timely : ∀ stamped ∈ order, ¬ stamped.2.timedOut := fun stamped member =>
    answered _ (covers.mem_iff.mpr (List.mem_append_left omitted (List.mem_map_of_mem member)))
  have served := explained.runs
  rw [List.foldlM_map, ← @known_nil initial] at runs
  unfold unmisled
  clear covers explained
  generalize ([] : List Bytes) = forgotten at runs ⊢
  -- each step is taken from what the checker knows, and by the step lemma it ends in what it then knows
  induction order generalizing initial forgotten with
  | nil => rfl
  | cons stamped rest ih =>
    obtain ⟨next, serves, served⟩ := Linearization.foldlM_cons_isSome.mp served
    obtain ⟨model, steps, runs⟩ := Linearization.foldlM_cons_isSome.mp runs
    have here := (inside stamped List.mem_cons_self).1
    have ended := ends stamped List.mem_cons_self
    have answered := timely stamped List.mem_cons_self
    have fine := harmlessAt_of_advance here ended serves answered steps
    rcases advance_known here ended serves fine with same | late
    · rw [steps] at same
      cases same
      rw [Linearization.along, fine, trackAt, serves]
      exact ih (fun other member => inside other (List.mem_cons_of_mem _ member))
        (fun other member => ends other (List.mem_cons_of_mem _ member))
        (fun other member => timely other (List.mem_cons_of_mem _ member)) served _ runs
    · exact absurd late.1 answered

end

/-- Where each operation ends before the next one begins, no other order respects
real time. -/
theorem eq_of_sequential (explained : TimedOrder operations initial order) {order' : List Operation}
    (sequential : (order.map Prod.snd).Pairwise timing.Precedes) (same : order'.Perm (order.map Prod.snd))
    (respects : timing.Respects order') : order' = order.map Prod.snd := by
  refine List.Perm.eq_of_pairwise (fun left right here there notLater notEarlier => ?_) respects explained.respects same
  by_contra apart
  have : Std.Symm fun left right => timing.Precedes left right ∨ timing.Precedes right left := ⟨fun _ _ => Or.symm⟩
  have either : (order.map Prod.snd).Pairwise fun left right => timing.Precedes left right ∨ timing.Precedes right left :=
    sequential.imp .inl
  rcases either.forall (same.mem_iff.mp here) there apart with before | after
  · exact notEarlier before
  · exact notLater after

end TimedOrder

/-- No false alarm: what an order by instants explains is not refuted, if no step of it
misleads the checker. Where no other order is possible, only that is accepted. -/
theorem checkWithInitial_spares_unmisled {history : History} {initial : BTreeMap Bytes Bytes}
    {config : CheckerConfig} (order : List (Nat × Operation))
    (strong : ∀ operation ∈ history.operations, operation.isStrong)
    (forward : ∀ operation ∈ history.operations, ∀ complete ∈ operation.complete, operation.invoke ≤ complete)
    (ended : ∀ operation ∈ history.operations, operation.Succeeds → operation.complete.isSome)
    (explained : TimedOrder history.operations (initialModel initial) order) :
    (unmisled (initialModel initial) order → ¬ (checkWithInitial history initial config).isRefuted) ∧
    ((∀ operation ∈ history.operations, operation.outcome ≠ .timeout) →
      (order.map Prod.snd).Pairwise timing.Precedes → (checkWithInitial history initial config).isLinearizable →
      unmisled (initialModel initial) order) := by
  have whole := History.strong_of_all strong
  have decided := @ordered_iff_searched history (initialModel initial) (by rwa [whole])
  rw [whole] at decided
  rw [checkWithInitial_isRefuted, checkWithInitial_isLinearizable]
  constructor
  · intro fine refuted
    obtain ⟨part, member, found⟩ := checkWithInitialRaw_refuted refuted
    exact (checkSingle_refuted found).1 (decided.mp (explained.ordered ended fine) part member)
  · intro answered sequential accepted
    obtain ⟨order', ⟨omitted, covers, late⟩, respects, runs⟩ := decided.mpr fun part member =>
      (checkSingle_linearizable (checkWithInitialRaw_linearizable accepted part member)).1
    have complete : ∀ {kept omitted : List Operation}, history.operations.Perm (kept ++ omitted) →
        (∀ operation ∈ omitted, operation.timedOut) → history.operations.Perm kept := by
      intro kept omitted covers late
      have none : omitted = [] := List.eq_nil_iff_forall_not_mem.mpr fun operation member =>
        answered operation (covers.mem_iff.mpr (List.mem_append_right kept member)) (late operation member)
      rwa [none, List.append_nil] at covers
    obtain ⟨omitted', covers', late'⟩ := explained.covers
    have same :=
      explained.eq_of_sequential sequential ((complete covers late).symm.trans (complete covers' late')) respects
    exact explained.unmisled_of_runs ended answered (same ▸ runs)

def readTwice : History :=
  ⟨[.answered 1 0 0 1 (.set [107] [53]) .ok (some 10), .answered 2 0 2 3 (.get [107]) (.value (some [53])) none,
    .answered 3 0 20 21 (.get [107]) (.value none) none, .answered 4 0 22 23 (.incr [107]) .error none]⟩

theorem readTwice_accepted : ¬ (check readTwice .default).isRefuted := by
  refine (checkWithInitial_spares_unmisled ([0, 2, 20, 22].zip readTwice.operations) ?_ ?_ ?_ ⟨?_, ?_, ?_, ?_⟩).1 ?_
  · decide
  · decide
  · decide
  · exact ⟨[], .refl _, by simp⟩
  · decide
  · decide
  · decide +kernel
  · decide +kernel

def countedAnew : History :=
  ⟨[.answered 1 0 0 1 (.set [107] [53]) .ok (some 10), .answered 2 0 20 21 (.incr [107]) (.integer 1) none]⟩

/-- The key is gone when it is incremented and starts from one; the checker expects
six. -/
theorem check_refutes_countedAnew : (∃ order, TimedOrder countedAnew.operations (initialModel ∅) order) ∧
      (check countedAnew .default).isRefuted := by
  refine ⟨⟨[0, 20].zip countedAnew.operations, ?_, ?_, ?_, ?_⟩, by decide +kernel⟩
  · exact ⟨[], .refl _, by simp⟩
  · decide
  · decide
  · decide +kernel

end CrashCourse.Checker
