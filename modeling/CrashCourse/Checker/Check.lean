import CrashCourse.Checker.History

/-!
The linearizability checker of `cc-checker`: a memoized search for an order, the
split of a history by key, and the reduction of a refuted history to a witness.
-/

namespace CrashCourse.Checker
open CrashCourse.Core

structure CheckerConfig where
  maxStates : Nat
  witnessBudget : Nat

def CheckerConfig.default : CheckerConfig where
  maxStates := 10000000
  witnessBudget := 200

structure Witness where
  operationIds : List Nat
  oracleCalls : Nat
  budgetExhausted : Bool
  oneMinimal : Bool
  deriving DecidableEq

inductive Verdict where
  | linearizable (visited : Nat)
  | notLinearizable (witness : Witness) (visited : Nat)
  | undecided (visited : Nat)
  deriving DecidableEq

namespace Verdict

def isLinearizable : Verdict → Bool
  | linearizable _ => true
  | _ => false

def isRefuted : Verdict → Bool
  | notLinearizable .. => true
  | _ => false

end Verdict

structure MemoKey (count : Nat) where
  remaining : List (Fin count)
  state : List (Bytes × Bytes × Option Nat)
  deriving DecidableEq

inductive SearchResult where
  | found | notFound | undecided
  deriving DecidableEq, Repr

structure SearchState (count : Nat) where
  visited : Nat
  memo : List (MemoKey count)

def memoState (model : Model) : List (Bytes × Bytes × Option Nat) :=
  model.toList.map fun entry => (entry.1, entry.2.value, entry.2.deadline)

/-- The models after an operation: a timed out one is left out first, and then applied. -/
def nextModels (model : Model) (operation : Operation) : List Model :=
  if operation.outcome = .timeout then model :: (applyWithoutObservation model operation).toList
  else (applyObserved model operation).toList

namespace History
variable (history : History)

abbrev Index := Fin history.operations.length

def operation (index : history.Index) : Operation := history.operations.get index

def eligible (index : history.Index) (remaining : List history.Index) : Bool :=
  (List.finRange history.operations.length).all fun other =>
    other == index || match (history.operation other).complete with
      | some completion =>
        !decide (completion < (history.operation index).invoke) || !remaining.contains other
      | none => true

def candidates (remaining : List history.Index) (model : Model) : List (List history.Index × Model) :=
  remaining.zipIdx.flatMap fun (index, position) =>
    if history.eligible index remaining then
      (nextModels model (history.operation index)).map fun next => (remaining.eraseIdx position, next)
    else []

end History

/-- The loop of `search`: the first call that finds an order ends it. -/
def tryAll {α β : Type} (recurse : α → β → SearchResult × β) : List α → Bool → β → SearchResult × β
  | [], sawUndecided, state => (if sawUndecided then .undecided else .notFound, state)
  | candidate :: rest, sawUndecided, state =>
    match recurse candidate state with
    | (.found, state) => (.found, state)
    | (.undecided, state) => tryAll recurse rest true state
    | (.notFound, state) => tryAll recurse rest sawUndecided state

/-- `fuel` is the number of operations left, so that the second case is not reached. -/
def search (history : History) (config : CheckerConfig) :
    Nat → List history.Index → Model → SearchState history.operations.length →
      SearchResult × SearchState history.operations.length
  | _, [], _, state => (.found, state)
  | 0, _ :: _, _, state => (.undecided, state)
  | fuel + 1, index :: rest, model, state =>
    let remaining := index :: rest
    let state := { state with visited := state.visited + 1 }
    if state.visited > config.maxStates then (.undecided, state)
    else
      let key : MemoKey history.operations.length := ⟨remaining, memoState model⟩
      if state.memo.contains key then (.notFound, state)
      else
        tryAll (fun (remaining, model) => search history config fuel remaining model)
          (history.candidates remaining model) false { state with memo := key :: state.memo }

def searchAll (history : History) (initial : Model) (config : CheckerConfig) :
    SearchResult × SearchState history.operations.length :=
  search history config history.operations.length (List.finRange _) initial ⟨0, []⟩

def checkSingle (history : History) (initial : Model) (config : CheckerConfig) : Verdict :=
  if history.operations.isEmpty then .linearizable 0
  else
    match searchAll history initial config with
    | (.found, state) => .linearizable state.visited
    | (.undecided, state) => .undecided state.visited
    | (.notFound, state) =>
      .notLinearizable
        { operationIds := history.operations.map Operation.id
          oracleCalls := 0
          budgetExhausted := false
          oneMinimal := false } state.visited

/-- Stale observations and diagnostic probes are no operations of the linearizable history. -/
def Operation.isStrong (operation : Operation) : Bool :=
  operation.consistency == .strong && operation.diagnostic == .none

def History.strong (history : History) : History := ⟨history.operations.filter Operation.isStrong⟩

def perKey (operations : List Operation) : BTreeMap Bytes (List Operation) :=
  operations.foldl (fun split operation =>
    split.insert operation.kind.key (split[operation.kind.key]?.getD [] ++ [operation])) ∅

def keyInitial (initial : Model) (key : Bytes) : Model :=
  match initial[key]? with
  | some value => (∅ : Model).insert key value
  | none => ∅

def checkKeys (initial : Model) (config : CheckerConfig) : List (Bytes × List Operation) → Nat → Bool → Verdict
  | [], visited, undecided => if undecided then .undecided visited else .linearizable visited
  | (key, operations) :: rest, visited, undecided =>
    match checkSingle ⟨operations⟩ (keyInitial initial key) config with
    | .linearizable count => checkKeys initial config rest (saturatingAdd visited count) undecided
    | .undecided count => checkKeys initial config rest (saturatingAdd visited count) true
    | .notLinearizable witness count => .notLinearizable witness (saturatingAdd visited count)

def checkWithInitialRaw (history : History) (initial : Model) (config : CheckerConfig) : Verdict :=
  let history := history.strong
  if history.operations.any fun operation => operation.kind.isScan || operation.kind.isBatch then
    checkSingle history initial config
  else
    let split := perKey history.operations
    if split.size > 1 then checkKeys initial config split.toList 0 false
    else checkSingle history initial config

structure OracleState where
  calls : Nat
  cache : BTreeMap (List Nat) Bool

/-- Does the history without the removed operations fail too? `none` is a spent budget. -/
def witnessOracle (operations : List Operation) (initial : Model) (config : CheckerConfig) (budget : Nat)
    (state : OracleState) : Option Bool × OracleState :=
  let ids := (operations.map Operation.id).mergeSort
  match state.cache[ids]? with
  | some result => (some result, state)
  | none =>
    if state.calls ≥ budget then (none, state)
    else
      let result := (checkWithInitialRaw ⟨operations⟩ initial config).isRefuted
      (some result, ⟨state.calls + 1, state.cache.insert ids result⟩)

section Minimize
variable (initial : Model) (config : CheckerConfig) (budget : Nat)

def dropChunk (candidate : List Operation) (chunk : Nat) : List Nat → OracleState →
    Option (List Operation) × OracleState
  | [], state => (none, state)
  | start :: rest, state =>
    if state.calls ≥ budget then (none, state)
    else
      let reduced := candidate.take start ++ candidate.drop (start + chunk)
      if reduced.isEmpty then dropChunk candidate chunk rest state
      else
        match witnessOracle reduced initial config budget state with
        | (some true, state) => (some reduced, state)
        | (_, state) => dropChunk candidate chunk rest state

/-- The rounds with ever smaller chunks; the square of the length bounds their number. -/
def dropChunks : Nat → List Operation → Nat → OracleState → List Operation × OracleState
  | 0, candidate, _, state => (candidate, state)
  | fuel + 1, candidate, granularity, state =>
    if candidate.length < 2 || state.calls ≥ budget then (candidate, state)
    else
      let chunk := (candidate.length + granularity - 1) / granularity
      let starts := (List.range candidate.length).filter fun start => start % max chunk 1 == 0
      match dropChunk initial config budget candidate chunk starts state with
      | (some reduced, state) => dropChunks fuel reduced 2 state
      | (none, state) =>
        if granularity ≥ candidate.length then (candidate, state)
        else dropChunks fuel candidate (min (granularity * 2) candidate.length) state

theorem dropChunk_shorter {candidate reduced : List Operation} {chunk : Nat} {starts : List Nat}
    {state next : OracleState} (cuts : 0 < chunk) (inside : ∀ start ∈ starts, start < candidate.length)
    (found : dropChunk initial config budget candidate chunk starts state = (some reduced, next)) :
    reduced.length < candidate.length := by
  induction starts generalizing state with
  | nil => cases found
  | cons start rest ih =>
    obtain ⟨here, later⟩ := List.forall_mem_cons.mp inside
    unfold dropChunk at found
    split at found
    · cases found
    dsimp only at found
    split at found
    · exact ih later found
    split at found
    · obtain rfl := Option.some.inj (Prod.mk.inj found).1
      simp
      omega
    · exact ih later found

/-- The fuel is never used up. -/
theorem dropChunks_fuel {fuel : Nat} (more : Nat) {candidate : List Operation} {granularity : Nat} (state : OracleState)
    (positive : 0 < granularity)
    (enough : candidate.length * (candidate.length + 1) + (candidate.length - granularity) < fuel) :
    dropChunks initial config budget (fuel + more) candidate granularity state =
      dropChunks initial config budget fuel candidate granularity state := by
  induction fuel generalizing candidate granularity state with
  | zero => omega
  | succ fuel ih =>
    rw [Nat.add_right_comm]
    unfold dropChunks
    split
    · rfl
    next goes =>
      have two : 2 ≤ candidate.length := by
        by_contra short
        exact goes (by simp [not_le.mp short])
      have cuts : 0 < (candidate.length + granularity - 1) / granularity := Nat.div_pos (by omega) positive
      dsimp only
      split
      next reduced next found =>
        have shorter := dropChunk_shorter initial config budget cuts (by simp +contextual) found
        refine ih next Nat.two_pos ?_
        have square := Nat.mul_le_mul shorter (Nat.add_le_add_right shorter 1)
        rw [Nat.succ_mul, Nat.mul_succ] at square
        omega
      next next found =>
        split
        · rfl
        · exact ih next (by omega) (by omega)

/-- One pass from the end for an operation that can go; `none` says that the budget is spent. -/
def dropOne (candidate : List Operation) : List Nat → OracleState →
    Option (Option (List Operation)) × OracleState
  | [], state => (some none, state)
  | index :: rest, state =>
    if state.calls ≥ budget then (none, state)
    else
      let reduced := candidate.eraseIdx index
      match witnessOracle reduced initial config budget state with
      | (some true, state) => (some (some reduced), state)
      | (_, state) => dropOne candidate rest state

/-- The passes, each of which shortens the candidate, and whether none can be dropped any more. -/
def dropOnes : Nat → List Operation → OracleState → List Operation × Bool × OracleState
  | 0, candidate, state => (candidate, true, state)
  | fuel + 1, candidate, state =>
    match dropOne initial config budget candidate (List.range candidate.length).reverse state with
    | (none, state) => (candidate, false, state)
    | (some (some reduced), state) => dropOnes fuel reduced state
    | (some none, state) => (candidate, true, state)

def minimizeWitnessWithInitial (history : History) : Option Witness :=
  match witnessOracle history.operations initial config budget ⟨0, ∅⟩ with
  | (some true, state) =>
    let length := history.operations.length
    let (candidate, state) :=
      dropChunks initial config budget ((length + 1) * (length + 1)) history.operations 2 state
    let (candidate, oneMinimal, state) := dropOnes initial config budget (length + 1) candidate state
    some
      { operationIds := candidate.map Operation.id
        oracleCalls := state.calls
        budgetExhausted := decide (state.calls ≥ budget)
        oneMinimal }
  | _ => none

end Minimize

def checkWithInitial (history : History) (initial : BTreeMap Bytes Bytes) (config : CheckerConfig) : Verdict :=
  let initial := initialModel initial
  match checkWithInitialRaw history initial config with
  | .notLinearizable _ visited =>
    let witness := (minimizeWitnessWithInitial initial config config.witnessBudget history).getD
      { operationIds := history.operations.map Operation.id
        oracleCalls := 0
        budgetExhausted := config.witnessBudget == 0
        oneMinimal := false }
    .notLinearizable witness visited
  | raw => raw

def check (history : History) (config : CheckerConfig) : Verdict := checkWithInitial history ∅ config

end CrashCourse.Checker
