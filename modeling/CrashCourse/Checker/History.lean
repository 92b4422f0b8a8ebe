import CrashCourse.KeyValue.State

/-!
Client histories and the sequential model that `cc-checker` runs them on; a timed
out operation may have taken effect or not.
-/

namespace CrashCourse.Checker
open CrashCourse.Core

inductive ConsistencyMode where
  | strong | staleLocal | diagnostic
  deriving DecidableEq, Repr

inductive DiagnosticKind where
  | none
  | finalProbe
  | replicaState (replica committedIndex stateHash : Nat)
  deriving DecidableEq, Repr

inductive OperationKind where
  | set (key value : Bytes)
  | get (key : Bytes)
  | del (key : Bytes)
  | incr (key : Bytes)
  | cas (key : Bytes) (expected : Option Bytes) (value : Bytes)
  | scan (leading : Option Bytes) (limit : Nat)
  | batch (commands : List OperationKind)

namespace OperationKind

def key : OperationKind → Bytes
  | set key _ | get key | del key | incr key | cas key _ _ => key
  | scan leading _ => leading.getD []
  | batch _ => []

def isGet : OperationKind → Bool
  | get _ => true
  | _ => false

def isScan : OperationKind → Bool
  | scan .. => true
  | _ => false

def isBatch : OperationKind → Bool
  | batch _ => true
  | _ => false

theorem isGet_iff {kind : OperationKind} : kind.isGet ↔ ∃ key, kind = .get key := by
  cases kind <;> simp [isGet]

end OperationKind

inductive Outcome where
  | ok
  | value (value : Option Bytes)
  | integer (value : Int)
  | cas (swapped : Bool)
  | scan (items : List (Bytes × Bytes))
  | batch (replies : List Outcome)
  | error
  | timeout

namespace Outcome

mutual

def beq : Outcome → Outcome → Bool
  | .ok, .ok | .error, .error | .timeout, .timeout => true
  | .value left, .value right => left == right
  | .integer left, .integer right => left == right
  | .cas left, .cas right => left == right
  | .scan left, .scan right => left == right
  | .batch left, .batch right => beqAll left right
  | _, _ => false

def beqAll : List Outcome → List Outcome → Bool
  | [], [] => true
  | left :: lefts, right :: rights => beq left right && beqAll lefts rights
  | _, _ => false

end

mutual

theorem beq_iff : ∀ left right, beq left right = true ↔ left = right
  | .ok, right | .error, right | .timeout, right => by cases right <;> simp [beq]
  | .value _, right | .integer _, right | .cas _, right | .scan _, right => by
      cases right <;> simp [beq]
  | .batch replies, right => by
      cases right with
      | batch others => simp [beq, beqAll_iff replies others]
      | _ => simp [beq]

theorem beqAll_iff : ∀ lefts rights, beqAll lefts rights = true ↔ lefts = rights
  | [], rights => by cases rights <;> simp [beqAll]
  | left :: lefts, [] => by simp [beqAll]
  | left :: lefts, right :: rights => by
      simp [beqAll, beq_iff left right, beqAll_iff lefts rights]

end

end Outcome

instance Outcome.decidableEq : DecidableEq Outcome := fun left right =>
  decidable_of_iff (Outcome.beq left right = true) (Outcome.beq_iff left right)

structure Operation where
  id : Nat
  client : Nat
  sequence : Nat
  invoke : Nat
  complete : Option Nat
  kind : OperationKind
  outcome : Outcome
  deadline : Option Nat
  consistency : ConsistencyMode
  diagnostic : DiagnosticKind

structure History where
  operations : List Operation

/-- `Operation::completed` for a given client, with a deadline where there is one. -/
def Operation.answered (id client invoke complete : Nat) (kind : OperationKind) (outcome : Outcome)
    (deadline : Option Nat) : Operation where
  id
  client
  sequence := id
  invoke
  complete := some complete
  kind
  outcome
  deadline
  consistency := .strong
  diagnostic := .none

structure ModelValue where
  value : Bytes
  deadline : Option Nat
  deriving DecidableEq

abbrev Model := BTreeMap Bytes ModelValue

def initialModel (initial : BTreeMap Bytes Bytes) : Model := initial.map fun _ value => ⟨value, none⟩

/-- `apply_operation` for everything but a batch; `none` is an increment that overflows. -/
def applySimple (model : Model) (deadline : Option Nat) : OperationKind → Option (Model × Outcome)
  | .set key value => some (model.insert key ⟨value, deadline⟩, .ok)
  | .get key => some (model, .value (model[key]?.map ModelValue.value))
  | .del key => some (model.erase key, .ok)
  | .incr key =>
    -- a value that is no number counts as zero
    let old := (model[key]?.bind fun stored => KeyValue.parseI64 stored.value).getD 0
    (KeyValue.checkedAddI64 old 1).map fun new =>
      (model.insert key ⟨KeyValue.decimal new, none⟩, .integer new)
  | .cas key expected value =>
    if model[key]?.map ModelValue.value = expected then
      some (model.insert key ⟨value, none⟩, .cas true)
    else some (model, .cas false)
  | .scan leading limit =>
    let values := (model.toList.filter fun entry => leading.all fun leading => leading.isPrefixOf entry.1).map
      fun entry => (entry.1, entry.2.value)
    some (model, .scan (values.take limit))
  | .batch _ => none

def applyCommands (deadline : Option Nat) : Model → List OperationKind → List Outcome →
    Option (Model × List Outcome)
  | model, [], replies => some (model, replies)
  | model, command :: rest, replies =>
    match applySimple model deadline command with
    | some (next, reply) => applyCommands deadline next rest (replies ++ [reply])
    | none => none

def applyOperation (model : Model) (kind : OperationKind) (deadline : Option Nat) :
    Option (Model × Outcome) :=
  match kind with
  | .batch commands =>
    if commands.isEmpty || commands.any OperationKind.isBatch then none
    else (applyCommands deadline model commands []).map fun (next, replies) => (next, .batch replies)
  | kind => applySimple model deadline kind

def applyWithoutObservation (model : Model) (operation : Operation) : Option Model :=
  (applyOperation model operation.kind operation.deadline).map Prod.fst

/-- A read may see the value if it began before the deadline, and miss it if it ended
no earlier. -/
def observeGet (stored : Option ModelValue) (operation : Operation) : Bool :=
  let visibleAllowed := stored.any fun stored =>
    stored.deadline.all fun deadline => decide (operation.invoke < deadline)
  let absentAllowed := stored.all fun stored =>
    stored.deadline.any fun deadline =>
      operation.complete.any fun complete => decide (complete ≥ deadline)
  match operation.outcome with
  | .value (some observed) => visibleAllowed && stored.any fun stored => stored.value == observed
  | .value none => absentAllowed
  | _ => false

def applyObserved (model : Model) (operation : Operation) : Option Model :=
  if operation.outcome = .error then some model
  else
    match operation.kind with
    | .get key => if observeGet model[key]? operation then some model else none
    | kind =>
      match applyOperation model kind operation.deadline with
      | some (next, expected) => if expected = operation.outcome then some next else none
      | none => none

end CrashCourse.Checker
