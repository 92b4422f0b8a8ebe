import CrashCourse.KeyValue.State

/-!
A batch against its commands one by one.
-/

namespace CrashCourse.KeyValue.Kv
open CrashCourse.Core

def applyOneByOne (kv : Kv) (now : Nat) (limits : BatchLimits) : List KvOp → Kv × List (Outcome KvReply)
  | [] => (kv, [])
  | op :: rest =>
    let (next, outcome) := kv.applyCommandWithBatchLimits (.op op) now limits
    let (last, outcomes) := next.applyOneByOne now limits rest
    (last, outcome :: outcomes)

variable {kv tentative : Kv} {now index : Nat} {limits : BatchLimits} {commands : List KvOp}
  {sofar replies : List OpReply}

theorem applyOneByOne_of_replies
    (ended : batchLoop now limits.maxExpiryItems kv commands index sofar = .replies tentative replies) :
    ∃ own, replies = sofar ++ own ∧
      kv.applyOneByOne now limits commands = (tentative, own.map fun reply => .done (.op reply)) := by
  induction commands generalizing kv index sofar with
  | nil =>
    obtain ⟨rfl, rfl⟩ := BatchEnd.replies.inj ended
    exact ⟨[], (List.append_nil _).symm, rfl⟩
  | cons op rest ih =>
    rw [batchLoop] at ended
    rw [applyOneByOne, applyCommandWithBatchLimits]
    generalize kv.applyOp now limits.maxExpiryItems op = step at ended ⊢
    obtain ⟨next, outcome⟩ := step
    cases outcome with
    | done reply =>
      obtain ⟨own, rfl, each⟩ := ih ended
      refine ⟨reply :: own, by rw [List.append_assoc, List.singleton_append], ?_⟩
      dsimp only
      rw [each, List.map_cons]
    | failed error | panicked => cases ended

/-- A batch that succeeds is its commands one by one; one that fails leaves the state
alone. -/
theorem batch_is_atomic_and_sequential (kv : Kv) (now : Nat) (limits : BatchLimits) (commands : List KvOp) :
    (∀ next replies, kv.applyCommandWithBatchLimits (.batch commands) now limits = (next, .done (.batch replies)) →
      kv.applyOneByOne now limits commands = (next, replies.map fun reply => .done (.op reply))) ∧
    ∀ next failedIndex error,
      kv.applyCommandWithBatchLimits (.batch commands) now limits = (next, .done (.batchError failedIndex error)) →
        next = kv := by
  rw [applyCommandWithBatchLimits, applyBatch]
  cases validateBatch commands limits.maxCommands limits.maxBytes with
  | error error => exact ⟨fun _ _ => by rintro ⟨⟩, fun _ _ _ => by rintro ⟨⟩⟩
  | ok _ =>
    dsimp only
    cases ended : batchLoop now limits.maxExpiryItems kv commands 0 [] with
    | panicked => exact ⟨fun _ _ => by rintro ⟨⟩, fun _ _ _ => by rintro ⟨⟩⟩
    | failedAt index error => exact ⟨fun _ _ => by rintro ⟨⟩, fun _ _ _ => by rintro ⟨⟩; rfl⟩
    | replies tentative replies =>
      obtain ⟨own, rfl, each⟩ := applyOneByOne_of_replies ended
      dsimp only
      -- the reply is measured only after every command ran
      split_ifs
      · exact ⟨fun _ _ => by rintro ⟨⟩, fun _ _ _ => by rintro ⟨⟩⟩
      · exact ⟨fun _ _ => by rintro ⟨⟩, fun _ _ _ => by rintro ⟨⟩; rfl⟩
      · exact ⟨fun _ _ => by rintro ⟨⟩; exact each, fun _ _ _ => by rintro ⟨⟩⟩

theorem batch_of_two : (new .default).applyOneByOne 5 .default [.set [1] [49] none, .incr [1] 2] =
      (((new .default).applyCommandWithBatchLimits (.batch [.set [1] [49] none, .incr [1] 2]) 5 .default).1,
        [.done (.op .ok), .done (.op (.integer 3))]) ∧
    ((new .default).applyCommandWithBatchLimits (.batch [.set [1] [120] none, .incr [1] 2]) 5 .default).1 =
      new .default :=
  ⟨(batch_is_atomic_and_sequential _ 5 .default _).1 _ [.ok, .integer 3] (by rfl),
    (batch_is_atomic_and_sequential _ 5 .default [.set [1] [120] none, .incr [1] 2]).2 _ (some 1) .notNumeric (by rfl)⟩

end CrashCourse.KeyValue.Kv
