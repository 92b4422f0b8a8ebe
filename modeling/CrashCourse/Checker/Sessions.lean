import CrashCourse.Checker.Specification

/-!
The session guarantees, which `cc-checker` looks at without the search.
-/

namespace CrashCourse.Checker
open CrashCourse.Core

def happensBefore (left right : Operation) : Bool :=
  left.complete.any fun complete => decide (complete < right.invoke)

def kindOutcomeIsMutation : OperationKind → Outcome → Bool
  | .set .., .ok | .del _, .ok | .cas .., .cas true | .incr _, .integer _ => true
  | _, _ => false

def isSuccessfulMutation (operation : Operation) : Bool := kindOutcomeIsMutation operation.kind operation.outcome

/-- A batch has no key of its own: its commands and their replies decide. -/
def mutatesKey (operation : Operation) (key : Bytes) : Bool :=
  match operation.kind, operation.outcome with
  | .batch commands, .batch replies => (commands.zip replies).any fun (command, reply) =>
    command.key == key && kindOutcomeIsMutation command reply
  | kind, _ => kind.key == key && isSuccessfulMutation operation

mutual

def mutatingKindTouchesKey (key : Bytes) : OperationKind → Bool
  | .batch commands => mutatingKindsTouchKey key commands
  | .set own _ | .del own | .incr own | .cas own _ _ => own == key
  | .get _ | .scan .. => false

def mutatingKindsTouchKey (key : Bytes) : List OperationKind → Bool
  | [] => false
  | command :: rest => mutatingKindTouchesKey key command || mutatingKindsTouchKey key rest

end

def mayHaveMutatedKey (operation : Operation) (key : Bytes) : Bool :=
  if operation.outcome = .timeout then mutatingKindTouchesKey key operation.kind
  else mutatesKey operation key

/-- Something may have taken effect between the beginning of one and the end of the
other. -/
def hasInterveningMutation (history : History) (key : Bytes) (leftInvoke rightComplete excludedId : Nat) : Bool :=
  history.operations.any fun operation =>
    operation.id != excludedId && mayHaveMutatedKey operation key && decide (operation.invoke ≤ rightComplete) &&
      operation.complete.all fun complete => decide (complete ≥ leftInvoke)

def hasPossibleExpiryBetween (history : History) (left right : Operation) : Bool :=
  history.operations.any fun operation =>
    operation.kind.key == left.kind.key && operation.deadline.any fun deadline =>
      decide (deadline ≥ left.invoke) && right.complete.any fun complete => decide (deadline ≤ complete)

inductive ExpectedObservation where
  | value (value : Option Bytes)
  | integer (value : Int)

def expectedMutationObservation (operation : Operation) : Option ExpectedObservation :=
  match operation.kind, operation.outcome with
  | .set _ value, .ok | .cas _ _ value, .cas true => some (.value (some value))
  | .del _, .ok => some (.value none)
  | .incr _, .integer value => some (.integer value)
  | _, _ => none

def outcomeNumeric : Outcome → Option Int
  | .integer value => some value
  | .value (some value) => KeyValue.parseI64 value
  | _ => none

def observationMatches : ExpectedObservation → Outcome → Bool
  | .value expected, .value actual => expected == actual
  | .value _, _ => false
  | .integer expected, actual => outcomeNumeric actual == some expected

inductive SessionGuarantee where
  | readYourWrites | monotonicReads | monotonicWrites | writesFollowReads
  deriving DecidableEq, Repr

structure SessionViolation where
  client : Nat
  guarantee : SessionGuarantee
  operationIds : List Nat
  predicate : String
  deriving DecidableEq

structure ClientSessionReport where
  client : Nat
  eligibleForLinearizabilityCrossCheck : Bool
  operationIds : List Nat
  deriving DecidableEq

structure SessionReport where
  clients : List ClientSessionReport
  violations : List SessionViolation
  deriving DecidableEq

def windows {α : Type} (things : List α) : List (α × α) := things.zip things.tail

def inDomain (operations : List Operation) : Bool :=
  operations.all fun operation => operation.complete.isSome && operation.isStrong &&
    !(decide (operation.outcome = .timeout) || decide (operation.outcome = .error))

def sequential (operations : List Operation) : Bool :=
  (windows operations).all fun (earlier, later) => happensBefore earlier later

section Client
variable (history : History) (client : Nat) (operations : List Operation)

def regressions : List SessionViolation :=
  (windows operations).filterMap fun (earlier, later) =>
    if earlier.sequence > later.sequence then
      some
        { client
          guarantee :=
            if earlier.kind.isGet && isSuccessfulMutation later then .writesFollowReads else .monotonicWrites
          operationIds := [earlier.id, later.id]
          predicate := "a sequential client request sequence regressed" }
    else none

/-- The read is of another key, not later, past the deadline or disturbed. -/
def unrelated (write read : Operation) : Bool :=
  !read.kind.isGet || read.kind.key != write.kind.key || !happensBefore write read ||
    (write.deadline.any fun deadline => read.complete.all fun complete => decide (complete ≥ deadline)) ||
    hasInterveningMutation history write.kind.key write.invoke (read.complete.getD read.invoke) write.id

def missedWrites : List SessionViolation :=
  operations.flatMap fun write =>
    match expectedMutationObservation write with
    | none => []
    | some expected => operations.filterMap fun read =>
      if unrelated history write read || observationMatches expected read.outcome then none
      else some
        { client
          guarantee := .readYourWrites
          operationIds := [write.id, read.id]
          predicate := "a later sequential strong read did not observe the client's quiescent acknowledged write" }

/-- Two reads of a key with different answers, and nothing that explains the change. -/
def changedUnexplained (earlier later : Operation) : Bool :=
  earlier.kind.key == later.kind.key && earlier.outcome != later.outcome &&
    !hasPossibleExpiryBetween history earlier later &&
    !hasInterveningMutation history earlier.kind.key earlier.invoke (later.complete.getD later.invoke) earlier.id

def changedReads : List SessionViolation :=
  (windows (operations.filter fun operation => operation.kind.isGet)).filterMap fun (earlier, later) =>
    if changedUnexplained history earlier later then
      some
        { client
          guarantee := .monotonicReads
          operationIds := [earlier.id, later.id]
          predicate := "two sequential strong reads changed without any intervening mutation" }
    else none

def clientViolations : List SessionViolation :=
  if !inDomain operations || !sequential operations then []
  else regressions client operations ++ missedWrites history client operations ++
    changedReads history client operations

end Client

def byClient (operations : List Operation) : BTreeMap Nat (List Operation) :=
  operations.foldl (fun split operation =>
    if operation.client ≠ 0 then
      split.insert operation.client (split[operation.client]?.getD [] ++ [operation])
    else split) ∅

def invocationOrder (left right : Operation) : Bool :=
  decide (left.invoke < right.invoke) || left.invoke == right.invoke && decide (left.id ≤ right.id)

def sortOperations (operations : List Operation) : List Operation :=
  operations.insertionSort fun left right => invocationOrder left right

def checkSessionGuarantees (history : History) : SessionReport :=
  let sessions := (byClient history.operations).toList.map fun (client, operations) =>
    (client, sortOperations operations)
  { clients := sessions.map fun (client, operations) =>
      { client
        eligibleForLinearizabilityCrossCheck := inDomain operations && sequential operations
        operationIds := operations.map Operation.id }
    violations := sessions.flatMap fun (client, operations) => clientViolations history client operations }

end CrashCourse.Checker
