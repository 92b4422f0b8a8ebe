import CrashCourse.Checker.Locality

/-!
The sequential store that histories are judged by. It refuses a command that cannot be
carried out; the checker's model counts whatever is no number as zero, so its verdicts are
about the store only if the counters hold numbers.
-/

namespace CrashCourse.Checker
open CrashCourse.Core
open CrashCourse.KeyValue (parseI64 checkedAddI64 decimal parseI64_decimal)

section Store
-- what of the store can be seen: all of it, or what has not expired
variable (shows : Model → Model)

/-- A single command: it reads what can be seen. `none` is a refusal. -/
def command (store : Model) (deadline : Option Nat) : OperationKind → Option (Model × Outcome)
  | .set key value => some (store.insert key ⟨value, deadline⟩, .ok)
  | .get key => some (store, .value ((shows store)[key]?.map ModelValue.value))
  | .del key => some (store.erase key, .ok)
  | .incr key =>
    match (shows store)[key]? with
    | none => some (store.insert key ⟨decimal 1, none⟩, .integer 1)
    | some stored =>
      ((parseI64 stored.value).bind fun old => checkedAddI64 old 1).map fun new =>
        (store.insert key ⟨decimal new, stored.deadline⟩, .integer new)
  | .cas key expected value =>
    if (shows store)[key]?.map ModelValue.value = expected then
      some (store.insert key ⟨value, none⟩, .cas true)
    else some (store, .cas false)
  | .scan leading limit =>
    let entries := (shows store).toList.filter fun entry => leading.all fun leading => leading.isPrefixOf entry.1
    some (store, .scan ((entries.map fun entry => (entry.1, entry.2.value)).take limit))
  | .batch _ => none

def commands (deadline : Option Nat) : Model → List OperationKind → Option (Model × List Outcome)
  | store, [] => some (store, [])
  | store, first :: rest =>
    (command shows store deadline first).bind fun (next, reply) =>
      (commands deadline next rest).map fun (last, replies) => (last, reply :: replies)

def respond (store : Model) (kind : OperationKind) (deadline : Option Nat) : Option (Model × Outcome) :=
  match kind with
  | .batch parts =>
    if parts = [] then none
    else (commands shows deadline store parts).map fun (next, replies) => (next, .batch replies)
  | kind => command shows store deadline kind

/-- The store after an operation that was observed as the history says; one that timed
out has the effect it would have had. -/
def serve (store : Model) (operation : Operation) : Option Model :=
  match operation.outcome with
  | .error => some store
  | .timeout => some ((respond shows store operation.kind operation.deadline).elim store Prod.fst)
  | outcome =>
    (respond shows store operation.kind operation.deadline).bind fun (next, reply) =>
      if reply = outcome then some next else none

end Store

section Commands
variable {shows : Model → Model} {store next : Model} {deadline : Option Nat} {replies : List Outcome}

theorem commands_cons {first : OperationKind} {rest : List OperationKind} :
    commands shows deadline store (first :: rest) = some (next, replies) ↔
      ∃ middle reply others, command shows store deadline first = some (middle, reply) ∧
        commands shows deadline middle rest = some (next, others) ∧ replies = reply :: others := by
  rw [commands]
  cases command shows store deadline first with
  | none => simp
  | some result => simp [Prod.ext_iff, eq_comm, and_assoc]

theorem commands_isBatch {parts : List OperationKind}
    (done : commands shows deadline store parts = some (next, replies)) :
    parts.any OperationKind.isBatch = false := by
  induction parts generalizing store replies with
  | nil => rfl
  | cons first rest ih =>
    obtain ⟨middle, reply, others, head, tail, rfl⟩ := commands_cons.mp done
    rw [List.any_cons, ih tail, Bool.or_false]
    cases first with
    | batch parts => cases head
    | _ => rfl

theorem applyCommands_eq (parts : List OperationKind) (earlier : List Outcome) :
    applyCommands deadline store parts earlier =
      (applyCommands deadline store parts []).map fun result => (result.1, earlier ++ result.2) := by
  induction parts generalizing store earlier with
  | nil => simp [applyCommands]
  | cons first rest ih =>
    unfold applyCommands
    cases applySimple store deadline first with
    | none => rfl
    | some result =>
      dsimp only
      rw [ih, ih ([] ++ [result.2]), Option.map_map]
      refine congrArg (Option.map · _) (funext fun last => ?_)
      simp

theorem serve_succeeds {operation : Operation} (succeeds : operation.Succeeds) : serve shows store operation =
      (respond shows store operation.kind operation.deadline).bind fun result =>
        if result.2 = operation.outcome then some result.1 else none := by
  unfold serve
  split
  next error => exact absurd error succeeds.2
  next timeout => exact absurd timeout succeeds.1
  next => rfl

end Commands

/-- Everything in the store is there for good. -/
def Permanent (store : Model) : Prop :=
  ∀ (key : Bytes) (stored : ModelValue), store[key]? = some stored → stored.deadline = none

def OperationKind.parts : OperationKind → List OperationKind
  | .batch commands => commands
  | kind => [kind]

/-- The commands of an operation, each with its reply. -/
def answers (kind : OperationKind) (reply : Outcome) : List (OperationKind × Outcome) :=
  match kind, reply with
  | .batch commands, .batch replies => commands.zip replies
  | kind, reply => [(kind, reply)]

section Parts
variable {store next : Model} {deadline : Option Nat} {kind : OperationKind} {reply : Outcome}
  {operation : Operation} {key : Bytes}

theorem applySimple_deadline {stored : ModelValue} (done : applySimple store deadline kind = some (next, reply))
    (held : next[key]? = some stored) :
    store[key]? = some stored ∨ stored.deadline = none ∨ stored.deadline = deadline ∧ kind = .set key stored.value := by
  have inserted : ∀ {own : Bytes} {value : ModelValue}, (store.insert own value)[key]? = some stored →
      store[key]? = some stored ∨ own = key ∧ value = stored := by
    intro own value held
    rw [Std.ExtTreeMap.getElem?_insert] at held
    split at held
    next same =>
      cases held
      exact .inr ⟨Std.compare_eq_iff_eq.mp same, rfl⟩
    next => exact .inl held
  cases kind with
  | set own value =>
    cases done
    rcases inserted held with before | ⟨rfl, rfl⟩
    · exact .inl before
    · exact .inr (.inr ⟨rfl, rfl⟩)
  | get own | scan leading limit =>
    cases done
    exact .inl held
  | del own =>
    cases done
    rw [Std.ExtTreeMap.getElem?_erase] at held
    split at held
    next => cases held
    next => exact .inl held
  | incr own =>
    obtain ⟨new, -, same⟩ := Option.map_eq_some_iff.mp done
    cases same
    rcases inserted held with before | ⟨-, rfl⟩
    · exact .inl before
    · exact .inr (.inl rfl)
  | cas own expected value =>
    rw [applySimple] at done
    split at done
    next =>
      cases done
      rcases inserted held with before | ⟨-, rfl⟩
      · exact .inl before
      · exact .inr (.inl rfl)
    next =>
      cases done
      exact .inl held
  | batch commands => cases done

variable {holds : Model → Prop}

theorem applyCommands_keeps {parts : List OperationKind} {earlier replies : List Outcome}
    (done : applyCommands deadline store parts earlier = some (next, replies)) :
    ∃ later, replies = earlier ++ later ∧
      ((∀ pair ∈ parts.zip later, ∀ before after, applySimple before deadline pair.1 = some (after, pair.2) →
        holds before → holds after) → holds store → holds next) := by
  induction parts generalizing store earlier with
  | nil =>
    cases done
    exact ⟨[], (List.append_nil _).symm, fun _ => id⟩
  | cons first rest ih =>
    unfold applyCommands at done
    cases head : applySimple store deadline first with
    | none =>
      rw [head] at done
      cases done
    | some result =>
      rw [head] at done
      obtain ⟨later, rfl, kept⟩ := ih done
      refine ⟨result.2 :: later, by simp, fun each start => ?_⟩
      exact kept (fun pair member => each pair (List.mem_cons_of_mem _ member))
        (each _ List.mem_cons_self store result.1 head start)

theorem applyOperation_keeps (each : ∀ pair ∈ answers kind reply, pair.1 ∈ kind.parts → ∀ before after,
      applySimple before deadline pair.1 = some (after, pair.2) → holds before → holds after) (start : holds store)
    (done : applyOperation store kind deadline = some (next, reply)) : holds next := by
  cases kind with
  | batch commands =>
    unfold applyOperation at done
    dsimp only at done
    split at done
    next => cases done
    next =>
      obtain ⟨⟨last, replies⟩, carried, same⟩ := Option.map_eq_some_iff.mp done
      cases same
      obtain ⟨later, rfl, kept⟩ := applyCommands_keeps carried
      exact kept (fun pair member => each pair member (List.of_mem_zip member).1) start
  | _ => exact each _ (List.mem_singleton_self _) (List.mem_singleton_self _) store next done start

/-- What every command keeps, with the reply that its operation was given, the operation keeps. -/
theorem advance_keeps (start : holds store)
    (each : ∀ reply, (operation.outcome ≠ .timeout → operation.outcome = reply) → ∀ pair ∈ answers operation.kind reply,
      pair.1 ∈ operation.kind.parts → ∀ before after,
        applySimple before operation.deadline pair.1 = some (after, pair.2) → holds before → holds after)
    (steps : advance store operation = some next) : holds next := by
  cases advance_iff.mp steps with
  | late timeout applied => exact applyOperation_keeps (each _ fun timely => absurd timeout timely) start applied
  | failed error | read kind succeeds observed => exact start
  | answered kind succeeds applied => exact applyOperation_keeps (each _ fun _ => rfl) start applied

end Parts

section Permanent
variable {store next : Model} {kind : OperationKind} {reply : Outcome} {operation : Operation}

section
variable (permanent : Permanent store)
include permanent

theorem Permanent.applySimple (done : applySimple store none kind = some (next, reply)) : Permanent next := by
  intro key stored held
  rcases applySimple_deadline done held with before | unset | ⟨unset, -⟩
  · exact permanent key stored before
  · exact unset
  · exact unset

theorem Permanent.advance (lasting : operation.deadline = none) (steps : advance store operation = some next) :
    Permanent next := by
  refine advance_keeps permanent (fun reply _ pair _ _ before after applied lasts => ?_) steps
  rw [lasting] at applied
  exact lasts.applySimple applied

end

end Permanent

theorem initialModel_permanent (initial : BTreeMap Bytes Bytes) : Permanent (initialModel initial) := by
  intro key stored held
  unfold initialModel at held
  rw [Std.ExtTreeMap.getElem?_map] at held
  obtain ⟨value, -, rfl⟩ := Option.map_eq_some_iff.mp held
  rfl

/-- An order explains the operations to the store: all that were answered, and some
that timed out. -/
def Explained (operations : List Operation) (initial : BTreeMap Bytes Bytes) : Prop :=
  Linearization.Linearizable timing (serve id) Operation.timedOut operations (initialModel initial)

namespace History
variable {history : History} {initial : BTreeMap Bytes Bytes}

end History

variable {history : History} {initial : BTreeMap Bytes Bytes}

theorem checkWithInitial_isLinearizable {config : CheckerConfig} :
    (checkWithInitial history initial config).isLinearizable =
      (checkWithInitialRaw history (initialModel initial) config).isLinearizable := by
  unfold checkWithInitial
  dsimp only
  cases raw : checkWithInitialRaw history (initialModel initial) config with
  | _ => rfl

theorem checkWithInitial_isRefuted {config : CheckerConfig} : (checkWithInitial history initial config).isRefuted =
      (checkWithInitialRaw history (initialModel initial) config).isRefuted := by
  unfold checkWithInitial
  dsimp only
  cases raw : checkWithInitialRaw history (initialModel initial) config with
  | _ => rfl

theorem History.strong_of_all (strong : ∀ operation ∈ history.operations, operation.isStrong) :
    history.strong = history := by
  unfold History.strong
  rw [List.filter_eq_self.mpr strong]

def counted (value : Bytes) (count : Int) : History :=
  ⟨[.answered 1 0 0 1 (.set [107] value) .ok none, .answered 2 0 2 3 (.incr [107]) (.integer count) none]⟩

/-- Neither the budget nor the order in which a history lists its operations turns one
verdict into the other, whatever deadlines, batches or timeouts it has. -/
theorem verdicts_never_contradict {history other : History} {initial : BTreeMap Bytes Bytes}
    {config config' : CheckerConfig} (same : history.operations.Perm other.operations)
    (forward : ∀ operation ∈ history.operations, ∀ complete ∈ operation.complete, operation.invoke ≤ complete)
    (accepted : (checkWithInitial history initial config).isLinearizable) :
    (checkWithInitial other initial config').isRefuted = false := by
  rw [checkWithInitial_isLinearizable] at accepted
  rw [checkWithInitial_isRefuted, Bool.eq_false_iff]
  intro refuted
  have strong : history.strong.operations.Perm other.strong.operations := same.filter _
  obtain ⟨order, ⟨omitted, covers, late⟩, respects, runs⟩ := (@ordered_iff_searched history (initialModel initial)
    fun operation member => forward operation (List.mem_filter.mp member).1).mpr fun part member =>
      (checkSingle_linearizable (checkWithInitialRaw_linearizable accepted part member)).1
  have moved : Ordered other.strong.operations (initialModel initial) :=
    ⟨order, ⟨omitted, strong.symm.trans covers, late⟩, respects, runs⟩
  obtain ⟨part, member, found⟩ := checkWithInitialRaw_refuted refuted
  refine (checkSingle_refuted found).1 ((ordered_iff_searched fun operation member => ?_).mp moved part member)
  exact forward operation (same.mem_iff.mpr (List.mem_filter.mp member).1)

theorem verdicts_never_contradict_counted :
    (checkWithInitial ⟨(counted [49] 2).operations.reverse⟩ ∅ .default).isRefuted = false :=
  @verdicts_never_contradict (counted [49] 2) _ ∅ .default _ (List.reverse_perm _).symm (by decide) (by decide +kernel)

theorem Explained.pair {first second : Operation} (explained : Explained [first, second] initial)
    (answered : first.Succeeds ∧ second.Succeeds) (before : timing.Precedes first second) :
    ([first, second].foldlM (serve id) (initialModel initial)).isSome := by
  obtain ⟨order, ⟨omitted, covers, late⟩, respects, runs⟩ := explained
  have none : omitted = [] := by
    refine List.eq_nil_iff_forall_not_mem.mpr fun operation member => ?_
    have timeout : operation.outcome = .timeout := late operation member
    rcases List.mem_pair.mp (covers.mem_iff.mpr (List.mem_append_right order member)) with rfl | rfl
    · exact answered.1.1 timeout
    · exact answered.2.1 timeout
  rw [none, List.append_nil] at covers
  rcases List.pair_perm.mp covers with rfl | rfl
  · exact runs
  · exact absurd before (respects.head first (List.mem_singleton_self first))

end CrashCourse.Checker
