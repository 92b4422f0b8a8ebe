import CrashCourse.KeyValue.Command

/-!
The key-value state machine. A command that panics in the source ends in `panicked`.
-/

namespace CrashCourse.KeyValue
open CrashCourse.Core

inductive Outcome (α : Type) where
  | done (reply : α)
  | failed (error : KvError)
  | panicked
  deriving DecidableEq, Repr

structure BatchLimits where
  maxCommands : Nat
  maxBytes : Nat
  maxReplyBytes : Nat
  maxExpiryItems : Nat

def BatchLimits.default : BatchLimits where
  maxCommands := maxBatchCommands
  maxBytes := maxCodecBytes
  maxReplyBytes := maxCodecBytes
  maxExpiryItems := maxScan

structure Session where
  lastSeq : Nat
  cached : KvReply
  lastActive : Nat
  deriving DecidableEq

def sessionIdleTtl : Nat := 30 * 60 * 10 ^ 9

structure Kv where
  store : Store
  sessions : BTreeMap ClientId Session
  ttl : BTreeMap Bytes Nat
  deadlines : BTreeSet (Nat × Bytes)
  appliedIndex : Nat
  appliedTerm : Nat
  lastLeaderTime : Nat
  /-- The ordered index holds the deadlines of the map. -/
  indexed : ∀ deadline key, deadlines.contains (deadline, key) ↔ ttl[key]? = some deadline
  /-- Only a stored key has a deadline. -/
  stored : ∀ key, ttl.contains key → store.live.contains key

def isDigit (byte : UInt8) : Bool := decide (48 ≤ byte.toNat) && decide (byte.toNat ≤ 57)

def digitsValue (digits : Bytes) : Option Nat :=
  if digits.isEmpty || !digits.all isDigit then none
  else some (digits.foldl (fun value byte => value * 10 + (byte.toNat - 48)) 0)

/-- `str::parse::<i64>`: an optional sign and at least one digit; no byte of invalid
UTF-8 is a digit. -/
def parseI64 : Bytes → Option Int
  | 45 :: digits => (digitsValue digits).bind fun value =>
    if value ≤ 2 ^ 63 then some (-(value : Int)) else none
  | 43 :: digits => (digitsValue digits).bind fun value =>
    if value < 2 ^ 63 then some (value : Int) else none
  | digits => (digitsValue digits).bind fun value =>
    if value < 2 ^ 63 then some (value : Int) else none

def decimalNat (value : Nat) : Bytes := (Nat.toDigits 10 value).map fun digit => UInt8.ofNat digit.toNat

def decimal (value : Int) : Bytes :=
  if value < 0 then 45 :: decimalNat value.natAbs else decimalNat value.natAbs

def checkedAddI64 (left right : Int) : Option Int :=
  if -(2 ^ 63) ≤ left + right && left + right < 2 ^ 63 then some (left + right) else none

theorem isDigit_ofNat {digit : Char} (held : digit.isDigit) :
    isDigit (UInt8.ofNat digit.toNat) ∧ (UInt8.ofNat digit.toNat).toNat = digit.toNat := by
  simp only [Char.isDigit, Bool.and_eq_true, decide_eq_true_eq, UInt32.le_iff_toNat_le] at held
  have low : 48 ≤ digit.toNat := held.1
  have high : digit.toNat ≤ 57 := held.2
  have same : (UInt8.ofNat digit.toNat).toNat = digit.toNat := by
    rw [UInt8.toNat_ofNat']
    omega
  exact ⟨by simp [isDigit, same, low, high], same⟩

theorem decimalNat_isDigit (value : Nat) : ∀ byte ∈ decimalNat value, isDigit byte := by
  intro byte member
  obtain ⟨digit, held, rfl⟩ := List.mem_map.mp member
  exact (isDigit_ofNat (Nat.isDigit_of_mem_toDigits (by decide) le_rfl held)).1

theorem digitsValue_decimalNat (value : Nat) : digitsValue (decimalNat value) = some value := by
  have digits := decimalNat_isDigit value
  have filled : decimalNat value ≠ [] := by simp [decimalNat, Nat.toDigits_ne_nil]
  unfold digitsValue
  rw [if_neg (by simpa [filled] using digits), decimalNat, List.foldl_map]
  refine congrArg _ ?_
  calc _ = (Nat.toDigits 10 value).foldl (fun sofar digit => 10 * sofar + (digit.toNat - '0'.toNat)) 0 := by
        refine List.foldl_ext _ _ _ fun sofar digit held => ?_
        rw [(isDigit_ofNat (Nat.isDigit_of_mem_toDigits (by decide) le_rfl held)).2, Nat.mul_comm]
        rfl
    _ = value := by rw [← Nat.ofDigitChars_eq_foldl, Nat.ofDigitChars_ten_toDigits]

theorem parseI64_decimal {value : Int} (low : -(2 ^ 63) ≤ value) (high : value < 2 ^ 63) :
    parseI64 (decimal value) = some value := by
  unfold decimal
  split
  next negative =>
    rw [parseI64, digitsValue_decimalNat, Option.bind_some, if_pos (by omega)]
    exact congrArg _ (by omega)
  next positive =>
    have digits := decimalNat_isDigit value.natAbs
    have read : (digitsValue (decimalNat value.natAbs)).bind
        (fun value => if value < 2 ^ 63 then some (value : Int) else none) = some value := by
      rw [digitsValue_decimalNat, Option.bind_some, if_pos (by omega)]
      exact congrArg _ (by omega)
    unfold parseI64
    split
    next shape => exact absurd (digits 45 (by simp [shape])) (by decide)
    next shape => exact absurd (digits 43 (by simp [shape])) (by decide)
    next => exact read

namespace Kv

def new (config : StoreConfig) : Kv where
  store := .new config
  sessions := ∅
  ttl := ∅
  deadlines := ∅
  appliedIndex := 0
  appliedTerm := 0
  lastLeaderTime := 0
  indexed deadline key := by simp
  stored key held := by simp at held

def clearDeadline (kv : Kv) (key : Bytes) : Kv :=
  match held : kv.ttl[key]? with
  | none => kv
  | some previous =>
    { kv with
      ttl := kv.ttl.erase key
      deadlines := kv.deadlines.erase (previous, key)
      indexed := by
        intro deadline other
        have before := kv.indexed deadline other
        rw [Std.ExtTreeMap.getElem?_erase, Std.ExtTreeSet.contains_erase, Bool.and_eq_true, before]
        by_cases same : key = other
        · subst same
          rw [held]
          simp
        · simp [same]
      stored := by
        intro other listed
        rw [Std.ExtTreeMap.contains_erase, Bool.and_eq_true] at listed
        exact kv.stored other listed.2 }

theorem clearDeadline_ttl (kv : Kv) (key other : Bytes) :
    (kv.clearDeadline key).ttl[other]? = if key = other then none else kv.ttl[other]? := by
  unfold clearDeadline
  split
  next held =>
    split
    next same => rw [← same, held]
    next => rfl
  next previous held =>
    dsimp only
    rw [Std.ExtTreeMap.getElem?_erase]
    simp only [Std.compare_eq_iff_eq]

theorem clearDeadline_store (kv : Kv) (key : Bytes) : (kv.clearDeadline key).store = kv.store := by
  unfold clearDeadline
  split <;> rfl

def setDeadline (kv : Kv) (key : Bytes) (deadline : Nat) (held : kv.store.live.contains key) : Kv :=
  { kv.clearDeadline key with
    ttl := (kv.clearDeadline key).ttl.insert key deadline
    deadlines := (kv.clearDeadline key).deadlines.insert (deadline, key)
    indexed := by
      intro time other
      have before := (kv.clearDeadline key).indexed time other
      rw [Std.ExtTreeMap.getElem?_insert, Std.ExtTreeSet.contains_insert, Bool.or_eq_true, before,
        clearDeadline_ttl]
      by_cases same : key = other
      · subst same
        simp
      · simp [same]
    stored := by
      intro other listed
      rw [Std.ExtTreeMap.contains_insert, Bool.or_eq_true] at listed
      rw [clearDeadline_store]
      rcases listed with same | listed
      · obtain rfl : key = other := by simpa using same
        exact held
      · have kept := (kv.clearDeadline key).stored other listed
        rwa [clearDeadline_store] at kept }

def expired (kv : Kv) (key : Bytes) (now : Nat) : Bool :=
  kv.ttl[key]?.any fun deadline => decide (deadline ≤ now)

def visibleGet (kv : Kv) (key : Bytes) (now : Nat) : Option Bytes :=
  if kv.expired key now then none else kv.store.get key

theorem held_of_visible {kv : Kv} {key : Bytes} {now : Nat} (found : (kv.visibleGet key now).isSome) :
    kv.store.live.contains key := by
  unfold visibleGet Store.get at found
  split at found
  · cases found
  · rwa [Option.isSome_map, Std.ExtTreeMap.isSome_getElem?_eq_contains] at found

def ttlSeconds (kv : Kv) (key : Bytes) (now : Nat) : Int :=
  if (kv.visibleGet key now).isNone then -2
  else match kv.ttl[key]? with
    | some deadline => ((deadline - now) / 10 ^ 9 : Nat)
    | none => -1

def visibleScan (kv : Kv) (start stop : Option Bytes) (now limit : Nat) : List (Bytes × Bytes) :=
  (kv.store.scan start stop (min limit maxScan)).filter fun entry => !kv.expired entry.1 now

def putValue (kv : Kv) (key value : Bytes) :
    Except KvError { next : Kv // next.store.live.contains key } :=
  match put : kv.store.put key value with
  | .error error => .error (.store error)
  | .ok store =>
    .ok ⟨{ kv with
      store
      stored := by
        intro other listed
        rw [(Store.put_ok put).1, Std.ExtTreeMap.contains_insert, kv.stored other listed,
          Bool.or_true] }, by simp [(Store.put_ok put).1]⟩

/-- `store.delete` and, as always after it, `replace_deadline` with `None`. -/
def discard (kv : Kv) (key : Bytes) : Except KvError Kv :=
  match deleted : kv.store.delete key with
  | .error error => .error (.store error)
  | .ok store =>
    .ok { kv.clearDeadline key with
      store
      stored := by
        intro other listed
        rw [← Std.ExtTreeMap.isSome_getElem?_eq_contains, clearDeadline_ttl] at listed
        rw [(Store.delete_ok deleted).1, Std.ExtTreeMap.contains_erase]
        by_cases same : key = other
        · simp [same] at listed
        · rw [if_neg same, Std.ExtTreeMap.isSome_getElem?_eq_contains] at listed
          simp [same, kv.stored other listed] }

def deadlineAfter (now ttl : Nat) : Option Nat := if now + ttl ≤ u64Max then some (now + ttl) else none

def andThen {α : Type} (kv : Kv) (changed : Except KvError α) (rest : α → Kv × Outcome OpReply) :
    Kv × Outcome OpReply :=
  match changed with
  | .error error => (kv, .failed error)
  | .ok next => rest next

/-- The end of `Set`: the deadline follows the new value. -/
def settleTtl (kv : Kv) (key : Bytes) (held : kv.store.live.contains key) (now : Nat)
    (ttl : Option Nat) (reply : OpReply) : Kv × Outcome OpReply :=
  match ttl with
  | none => (kv.clearDeadline key, .done reply)
  | some ttl =>
    match deadlineAfter now ttl with
    | some deadline => (kv.setDeadline key deadline held, .done reply)
    | none => (kv, .panicked)

def purgeKeys (kv : Kv) : List Bytes → Kv × Except KvError Unit
  | [] => (kv, .ok ())
  | key :: rest =>
    match kv.discard key with
    | .error error => (kv, .error error)
    | .ok next => next.purgeKeys rest

def firstDeadline (kv : Kv) : Option (Nat × Bytes) := kv.deadlines.toList.head?

def expiredKeys (kv : Kv) (upTo maxItems : Nat) : List Bytes :=
  ((kv.deadlines.toList.takeWhile fun entry => decide (entry.1 ≤ upTo)).take maxItems).map Prod.snd

def applyOp (kv : Kv) (now maxExpiryItems : Nat) : KvOp → Kv × Outcome OpReply
  | .set key value ttl =>
    kv.andThen (kv.putValue key value) fun next => next.1.settleTtl key next.2 now ttl .ok
  | .conditionalSet key value ttl condition =>
    let found := (kv.visibleGet key now).isSome
    let holds := match condition with
      | .nx => !found
      | .xx => found
    if !holds then (kv, .done (.conditional false))
    else kv.andThen (kv.putValue key value) fun next =>
      next.1.settleTtl key next.2 now ttl (.conditional true)
  | .del key =>
    kv.andThen (kv.discard key) fun next => (next, .done (.integer 1))
  | .cas key expected value =>
    if kv.visibleGet key now ≠ expected then (kv, .done (.cas false))
    else match value with
      | some value =>
        kv.andThen (kv.putValue key value) fun next =>
          (next.1.clearDeadline key, .done (.cas true))
      | none => kv.andThen (kv.discard key) fun next => (next, .done (.cas true))
  | .incr key delta =>
    match (parseI64 ((kv.visibleGet key now).getD [48])).bind (checkedAddI64 · delta) with
    | none => (kv, .failed .notNumeric)
    | some value =>
      kv.andThen (kv.putValue key (decimal value)) fun next => (next.1, .done (.integer value))
  | .append key value =>
    let combined := (kv.visibleGet key now).getD [] ++ value
    kv.andThen (kv.putValue key combined) fun next => (next.1, .done (.integer combined.length))
  | .getSet key value =>
    kv.andThen (kv.putValue key value) fun next =>
      (next.1.clearDeadline key, .done (.value (kv.visibleGet key now)))
  | .getDel key =>
    match kv.visibleGet key now with
    | some previous =>
      kv.andThen (kv.discard key) fun next => (next, .done (.value (some previous)))
    | none => (kv.clearDeadline key, .done (.value none))
  | .expire key ttl =>
    if found : (kv.visibleGet key now).isSome then
      kv.settleTtl key (held_of_visible found) now (some ttl) (.integer 1)
    else (kv, .done (.integer 0))
  | .expireAt key at_ =>
    if found : (kv.visibleGet key now).isSome then
      (kv.setDeadline key at_ (held_of_visible found), .done (.integer 1))
    else (kv, .done (.integer 0))
  | .ttl key => (kv, .done (.integer (kv.ttlSeconds key now)))
  | .persist key =>
    (kv.clearDeadline key, .done (.integer (if kv.ttl.contains key then 1 else 0)))
  | .purgeExpired upTo =>
    let keys := kv.expiredKeys upTo maxExpiryItems
    match kv.purgeKeys keys with
    | (next, .error error) => (next, .failed error)
    | (next, .ok _) => (next, .done (.integer keys.length))
  | .expireSessions upTo =>
    ({ kv with
        sessions := kv.sessions.filter fun _ session =>
          decide (upTo - session.lastActive ≤ sessionIdleTtl) }, .done .ok)
  | .get key => (kv, .done (.value (kv.visibleGet key now)))
  | .scan start stop limit => (kv, .done (.scan (kv.visibleScan start stop now limit)))
  | .ping => (kv, .done .ok)

inductive BatchEnd where
  | replies (kv : Kv) (replies : List OpReply)
  | failedAt (index : Nat) (error : KvError)
  | panicked

def batchLoop (now maxExpiryItems : Nat) : Kv → List KvOp → Nat → List OpReply → BatchEnd
  | kv, [], _, replies => .replies kv replies
  | kv, op :: rest, index, replies =>
    match kv.applyOp now maxExpiryItems op with
    | (next, .done reply) => batchLoop now maxExpiryItems next rest (index + 1) (replies ++ [reply])
    | (_, .failed error) => .failedAt index error
    | (_, .panicked) => .panicked

/-- A batch publishes the tentative state whole or not at all; a reply above the codec
cap panics. -/
def applyBatch (kv : Kv) (now : Nat) (limits : BatchLimits) (commands : List KvOp) :
    Kv × Outcome KvReply :=
  match validateBatch commands limits.maxCommands limits.maxBytes with
  | .error error => (kv, .failed error)
  | .ok _ =>
    match batchLoop now limits.maxExpiryItems kv commands 0 [] with
    | .panicked => (kv, .panicked)
    | .failedAt index error => (kv, .done (.batchError (some index) error))
    | .replies tentative replies =>
      if replies.any fun reply => decide ((encodeOpReply reply).length > maxCodecBytes) then
        (kv, .panicked)
      else if (encodeReply (.batch replies)).length > limits.maxReplyBytes then
        (kv, .done (.batchError none .tooLarge))
      else (tentative, .done (.batch replies))

def applyCommandWithBatchLimits (kv : Kv) (command : KvCommand) (now : Nat) (limits : BatchLimits) :
    Kv × Outcome KvReply :=
  match command with
  | .batch commands => kv.applyBatch now limits commands
  | .op op =>
    match kv.applyOp now limits.maxExpiryItems op with
    | (next, .done reply) => (next, .done (.op reply))
    | (next, .failed error) => (next, .failed error)
    | (next, .panicked) => (next, .panicked)

def monotonicTime (kv : Kv) (time : Nat) : Kv × Nat :=
  if time < kv.lastLeaderTime then (kv, kv.lastLeaderTime)
  else ({ kv with lastLeaderTime := time }, time)

def advanceApplied (kv : Kv) (index term : Nat) : Kv :=
  { kv with appliedIndex := index, appliedTerm := term }

def markApplied (kv : Kv) (index term leaderTime : Nat) : Kv :=
  (kv.monotonicTime leaderTime).1.advanceApplied index term

/-- An error of the command is its reply here. -/
def applyCommandOnlyWithBatchLimits (kv : Kv) (index term : Nat) (command : KvCommand)
    (leaderTime : Nat) (limits : BatchLimits) : Kv × Outcome KvReply :=
  let (kv, now) := kv.monotonicTime leaderTime
  match kv.applyCommandWithBatchLimits command now limits with
  | (next, .done reply) => (next.advanceApplied index term, .done reply)
  | (next, .failed error) => (next.advanceApplied index term, .done (.op (.error error)))
  | (next, .panicked) => (next, .panicked)

/-- The historical surface with its own retry records. -/
def apply (kv : Kv) (index term : Nat) (client : ClientId) (sequence : Nat) (command : KvCommand)
    (leaderTime : Nat) : Kv × Outcome KvReply :=
  let (kv, now) := kv.monotonicTime leaderTime
  let execute : Kv × Outcome KvReply :=
    match kv.applyCommandWithBatchLimits command now .default with
    | (next, .done reply) =>
      let next : Kv :=
        if sequence > 0 then
          { next with sessions := next.sessions.insert client ⟨sequence, reply, now⟩ }
        else next
      (next.advanceApplied index term, .done reply)
    | (next, .failed error) => (next, .failed error)
    | (next, .panicked) => (next, .panicked)
  match kv.sessions[client]? with
  | none => execute
  | some session =>
    if now - session.lastActive > sessionIdleTtl then
      (advanceApplied { kv with sessions := kv.sessions.erase client } index term,
        .done (.op (.error .sessionExpired)))
    else if sequence < session.lastSeq then
      (kv.advanceApplied index term, .done (.op (.error .staleSequence)))
    else if sequence = session.lastSeq then (kv.advanceApplied index term, .done session.cached)
    else execute

/-- A read at a given time; `none` is the error for any other command. -/
def read (kv : Kv) (op : KvOp) (time : Nat) : Except KvError OpReply :=
  match op with
  | .get key => .ok (.value (kv.visibleGet key time))
  | .ttl key => .ok (.integer (kv.ttlSeconds key time))
  | .scan start stop limit => .ok (.scan (kv.visibleScan start stop time limit))
  | .ping => .ok .ok
  | _ => .error .invalidInput

end Kv
end CrashCourse.KeyValue
