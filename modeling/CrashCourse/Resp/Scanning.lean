import CrashCourse.KeyValue.Scans
import CrashCourse.Resp.Framing

/-!
The `SCAN` of a client. It goes on behind the keys that start with its literal.
-/

namespace CrashCourse.Resp
open CrashCourse.Core CrashCourse.KeyValue

/-- `str::parse::<u64>` takes an optional `+` and at least one digit. -/
def parseU64 (value : Bytes) : Except RespError Nat :=
  match utf8 value with
  | none => .error .invalidUtf8
  | some _ =>
    match digitsValue (if value.head? = some 43 then value.tail else value) with
    | none => .error .invalidInteger
    | some number => if number < 2 ^ 64 then .ok number else .error .invalidInteger

structure ScanCommand where
  cursor : Nat
  keyPrefix : Option Bytes
  count : Nat

def toAsciiUppercase (byte : UInt8) : UInt8 := if 97 ≤ byte ∧ byte ≤ 122 then byte - 32 else byte

def stripStar (pattern : Bytes) : Option Bytes :=
  if pattern.getLast? = some 42 then some pattern.dropLast else none

def matchFlag : Bytes := [77, 65, 84, 67, 72]
def countFlag : Bytes := [67, 79, 85, 78, 84]

def scanOptions : List Bytes → ScanCommand → Except RespError ScanCommand
  | [], command => .ok command
  | [_], _ => .error (.protocol "invalid SCAN option")
  | flag :: value :: options, command =>
    if flag.map toAsciiUppercase = matchFlag then
      scanOptions options { command with keyPrefix := stripStar value }
    else if flag.map toAsciiUppercase = countFlag then
      match parseU64 value with
      | .error error => .error error
      | .ok count => scanOptions options { command with count }
    else .error (.protocol "invalid SCAN option")

def parseScan (cursor : Bytes) (options : List Bytes) : Except RespError ScanCommand :=
  match parseU64 cursor with
  | .error error => .error error
  | .ok cursor => scanOptions options ⟨cursor, none, 10⟩

structure ScanReply where
  cursor : Nat
  items : List Bytes
  deriving DecidableEq

def scanReply (cursor : Nat) (values : List (Bytes × Bytes)) : ScanReply :=
  ⟨min cursor (2 ^ 63 - 1), values.flatMap fun entry => [entry.1, entry.2]⟩

/-- The host asks for the keys from the literal on, without an end. -/
def clientScan (kv : Kv) (cursor : Bytes) (options : List Bytes) (now : Nat) : Except RespError ScanReply :=
  (parseScan cursor options).map fun command =>
    scanReply command.cursor (kv.visibleScan command.keyPrefix none now command.count)

theorem parseU64_decimalNat {value : Nat} (typed : value < 2 ^ 64) : parseU64 (decimalNat value) = .ok value := by
  have valid : utf8 (decimalNat value) = some _ :=
    dif_pos (isValidUTF8_ascii fun byte member => (decimalNat_ascii value byte member).1)
  -- a number is written without a sign
  have unsigned : (decimalNat value).head? ≠ some 43 := fun signed =>
    absurd (decimalNat_isDigit value 43 (List.mem_of_mem_head? signed)) (by decide)
  rw [parseU64, valid]
  dsimp only
  rw [if_neg unsigned, digitsValue_decimalNat]
  exact if_pos typed

theorem parseScan_match {cursor count : Nat} (literal : Bytes) (typed : cursor < 2 ^ 64) (capped : count ≤ maxScan) :
    parseScan (decimalNat cursor) [matchFlag, literal ++ [42], countFlag, decimalNat count] =
      .ok ⟨cursor, some literal, count⟩ := by
  have small : count < 2 ^ 64 := capped.trans_lt (by decide)
  have star : stripStar (literal ++ [42]) = some literal := by
    rw [stripStar, List.getLast?_concat, List.dropLast_concat, if_pos rfl]
  rw [parseScan, parseU64_decimalNat typed]
  dsimp only
  rw [scanOptions, if_pos (by decide), scanOptions, if_neg (by decide), if_pos (by decide), parseU64_decimalNat small]
  dsimp only
  rw [scanOptions, star]

theorem flatMap_pair_inj {left right : List (Bytes × Bytes)}
    (same : (left.flatMap fun entry => [entry.1, entry.2]) = right.flatMap fun entry => [entry.1, entry.2]) :
    left = right := by
  induction left generalizing right with
  | nil => cases right with
    | nil => rfl
    | cons entry right => cases same
  | cons entry left ih => cases right with
    | nil => cases same
    | cons other right =>
      obtain ⟨key, same⟩ := List.cons.inj same
      obtain ⟨value, same⟩ := List.cons.inj same
      rw [Prod.ext key value, ih same]

theorem isLE_of_isPrefixOf {literal key : Bytes} (starts : literal.isPrefixOf key) : (compare literal key).isLE := by
  induction literal generalizing key with
  | nil => cases key <;> rfl
  | cons byte literal ih => cases key with
    | nil => cases starts
    | cons first key =>
      obtain ⟨same, rest⟩ := Bool.and_eq_true_iff.mp starts
      obtain rfl : byte = first := beq_iff_eq.mp same
      rw [List.compare_eq_compareLex, List.compareLex_cons_cons, Std.ReflOrd.compare_self]
      exact ih rest

def startsLive (kv : Kv) (literal : Bytes) (now : Nat) (entry : Bytes × Bytes) : Bool :=
  kv.visible now entry && literal.isPrefixOf entry.1

theorem present_filter_eq (kv : Kv) (literal : Bytes) (now : Nat) :
    (kv.present none none now).filter (fun entry => literal.isPrefixOf entry.1) =
      (kv.store.range (some literal) none).filter (startsLive kv literal now) := by
  rw [Kv.present_eq, Kv.range_eq_filter kv (some literal), List.filter_filter, List.filter_filter]
  refine List.filter_congr fun entry _ => ?_
  unfold startsLive
  cases starts : literal.isPrefixOf entry.1 with
  | false => simp
  | true => simp [Store.inRange, isLE_of_isPrefixOf starts]

/-- `SCAN` with `MATCH` returns the first live keys that start with the literal,
exactly if the keys from the literal on are such. -/
theorem match_scan_iff (kv : Kv) (cursor : Nat) (typed : cursor < 2 ^ 64) (literal : Bytes) (count : Nat)
    (capped : count ≤ maxScan) (now : Nat) :
    clientScan kv (decimalNat cursor) [matchFlag, literal ++ [42], countFlag, decimalNat count] now =
        .ok (scanReply cursor
          (((kv.present none none now).filter fun entry => literal.isPrefixOf entry.1).take count)) ↔
      CutHolds (kv.visible now) (startsLive kv literal now) (kv.store.range (some literal) none) count := by
  have replies : ∀ left right, Except.ok (scanReply cursor left) = (.ok (scanReply cursor right) :
      Except RespError ScanReply) ↔ left = right := by
    intro left right
    refine ⟨fun same => flatMap_pair_inj (congrArg ScanReply.items (Except.ok.inj same)), fun same => by rw [same]⟩
  rw [clientScan, parseScan_match literal typed capped]
  refine (replies _ _).trans ?_
  rw [Kv.visibleScan, Store.scan, min_eq_left capped, present_filter_eq]
  exact filter_take_eq_iff (fun _ held => (Bool.and_eq_true_iff.mp held).1) ..

theorem match_scan_shortLived : clientScan Kv.shortLived [48] [matchFlag, [97, 42], countFlag, [49]] 3 =
    .ok ⟨0, [[97], [1]]⟩ := by
  have right := (match_scan_iff Kv.shortLived 0 (by decide) [97] 1 (by decide) 3).mpr (by decide +kernel)
  have first : ((Kv.shortLived.present none none 3).filter fun entry => ([97] : Bytes).isPrefixOf entry.1).take 1 =
      [([97], [1])] := by decide +kernel
  rw [first] at right
  exact right

theorem scan_leaves_literal : clientScan Kv.shortLived [48] [matchFlag, [97, 42], countFlag, [50]] 3 =
    .ok ⟨0, [[97], [1], [98], [2]]⟩ := by
  have parsed : parseScan (decimalNat 0) [matchFlag, [97] ++ [42], countFlag, decimalNat 2] = _ :=
    parseScan_match [97] (by decide) (by decide)
  rw [clientScan, show parseScan [48] [matchFlag, [97, 42], countFlag, [50]] = _ from parsed]
  decide +kernel

end CrashCourse.Resp
