import CrashCourse.KeyValue.Expiry

/-!
Runs of client requests with sweeps in between.
-/

namespace CrashCourse.KeyValue
open CrashCourse.Core

def KvCommand.internal : KvCommand → Bool
  | .op single => single.internal
  | .batch commands => commands.any KvOp.internal

namespace Kv
variable {kv next full swept full' swept' : Kv} {key : Bytes} {now time : Nat}

def fairLoop (now items : Nat) : Kv → List KvOp → Bool
  | _, [] => true
  | kv, op :: rest =>
    kv.fairOp now op && match kv.applyOp now items op with
      | (next, .done _) => fairLoop now items next rest
      | _ => true

def fairCommand (kv : Kv) (now : Nat) (limits : BatchLimits) : KvCommand → Bool
  | .op op => kv.fairOp now op
  | .batch commands =>
    match validateBatch commands limits.maxCommands limits.maxBytes with
    | .error _ => true
    | .ok _ => fairLoop now limits.maxExpiryItems kv commands

inductive BatchAgrees (now : Nat) : BatchEnd → BatchEnd → Prop
  | replies {full swept : Kv} (purged : Purged now full swept) (replies : List OpReply) :
      BatchAgrees now (.replies full replies) (.replies swept replies)
  | failedAt (index : Nat) (error : KvError) : BatchAgrees now (.failedAt index error) (.failedAt index error)
  | panicked : BatchAgrees now .panicked .panicked

theorem batchLoop_agrees (order : now ≤ time) (items : Nat) {commands : List KvOp} {index : Nat}
    {replies : List OpReply} (purged : Purged now full swept)
    (clients : commands.any KvOp.internal = false) (fair : fairLoop time items full commands) :
    BatchAgrees now (batchLoop time items full commands index replies)
      (batchLoop time items swept commands index replies) := by
  induction commands generalizing full swept index replies with
  | nil => exact .replies purged replies
  | cons op rest ih =>
    rw [List.any_cons, Bool.or_eq_false_iff] at clients
    rw [fairLoop, Bool.and_eq_true] at fair
    have agree := applyOp_agrees purged order items clients.1 fair.1
    have later := fair.2
    unfold batchLoop
    revert agree later
    cases full.applyOp time items op with | mk next outcome => _
    cases swept.applyOp time items op with | mk next' outcome' => _
    rintro ⟨same, keeps⟩ later
    obtain rfl : outcome' = outcome := same
    cases outcome' with
    | done reply => exact ih (keeps (by simp)) clients.2 later
    | failed error => exact .failedAt index error
    | panicked => exact .panicked

theorem applyBatch_agrees (purged : Purged now full swept) (order : now ≤ time) (limits : BatchLimits)
    {commands : List KvOp} (clients : commands.any KvOp.internal = false)
    (fair : full.fairCommand time limits (.batch commands)) :
    Agrees now (full.applyBatch time limits commands) (swept.applyBatch time limits commands) := by
  unfold applyBatch
  dsimp only [fairCommand] at fair
  cases valid : validateBatch commands limits.maxCommands limits.maxBytes with
  | error error => exact purged.agrees _
  | ok charge =>
    rw [valid] at fair
    have agree : BatchAgrees now (batchLoop time limits.maxExpiryItems full commands 0 [])
        (batchLoop time limits.maxExpiryItems swept commands 0 []) :=
      batchLoop_agrees order limits.maxExpiryItems purged clients fair
    revert agree
    dsimp only
    cases batchLoop time limits.maxExpiryItems full commands 0 [] <;>
      cases batchLoop time limits.maxExpiryItems swept commands 0 [] <;> intro agree <;> cases agree
    case replies.replies.replies replies after =>
      dsimp only
      split
      · exact purged.agrees _
      · split
        · exact purged.agrees _
        · exact after.agrees _
    case failedAt.failedAt.failedAt => exact purged.agrees _
    case panicked.panicked.panicked => exact purged.agrees _

theorem applyCommandWithBatchLimits_agrees (purged : Purged now full swept) (order : now ≤ time)
    (limits : BatchLimits) {command : KvCommand} (client : command.internal = false)
    (fair : full.fairCommand time limits command) : Agrees now (full.applyCommandWithBatchLimits command time limits)
      (swept.applyCommandWithBatchLimits command time limits) := by
  cases command with
  | batch commands => exact applyBatch_agrees purged order limits client fair
  | op op =>
    have agree := applyOp_agrees purged order limits.maxExpiryItems client fair
    dsimp only [applyCommandWithBatchLimits]
    revert agree
    cases full.applyOp time limits.maxExpiryItems op with | mk next outcome => _
    cases swept.applyOp time limits.maxExpiryItems op with | mk next' outcome' => _
    rintro ⟨same, keeps⟩
    obtain rfl : outcome' = outcome := same
    cases outcome' with
    | done reply | failed error => exact (keeps (by simp)).agrees _
    | panicked => exact ⟨rfl, fun fine => absurd rfl fine⟩

theorem monotonicTime_eq (kv : Kv) (time : Nat) : kv.monotonicTime time =
      ({ kv with lastLeaderTime := max kv.lastLeaderTime time }, max kv.lastLeaderTime time) := by
  unfold monotonicTime
  split
  next early => rw [max_eq_left early.le]
  next late => rw [max_eq_right (not_lt.mp late)]

/-- The client has no retry record, or an active one with a lower sequence. -/
def executes (kv : Kv) (client : ClientId) (sequence now : Nat) : Bool :=
  match kv.sessions[client]? with
  | none => true
  | some session =>
    decide (now - session.lastActive ≤ sessionIdleTtl) && decide (session.lastSeq < sequence)

inductive Action where
  | command (term : Nat) (command : KvCommand) (limits : BatchLimits)
  | session (term : Nat) (client : ClientId) (sequence : Nat) (command : KvCommand)
  | read (op : KvOp)
  | sweep (term upTo : Nat) (limits : BatchLimits)

def Action.isSweep : Action → Bool
  | .sweep .. => true
  | _ => false

def Action.proper (time : Nat) : Action → Bool
  | .command _ sent _ | .session _ _ _ sent => !sent.internal
  | .read _ => true
  | .sweep _ upTo _ => decide (upTo ≤ time)

def perform (kv : Kv) (time : Nat) : Action → Kv × Outcome KvReply
  | .command term command limits =>
    kv.applyCommandOnlyWithBatchLimits (kv.appliedIndex + 1) term command time limits
  | .session term client sequence command =>
    kv.apply (kv.appliedIndex + 1) term client sequence command time
  | .read op =>
    match kv.read op time with
    | .ok reply => (kv, .done (.op reply))
    | .error error => (kv, .failed error)
  | .sweep term upTo limits =>
    kv.applyCommandOnlyWithBatchLimits (kv.appliedIndex + 1) term (.op (.purgeExpired upTo)) time
      limits

def fairAction (kv : Kv) (time : Nat) : Action → Bool
  | .command _ command limits =>
    let (kv, now) := kv.monotonicTime time
    kv.fairCommand now limits command
  | .session _ client sequence command =>
    let (kv, now) := kv.monotonicTime time
    !kv.executes client sequence now || kv.fairCommand now .default command
  | .read (.scan start stop limit) => kv.fairOp time (.scan start stop limit)
  | .read _ | .sweep .. => true

theorem Purged.onTime (purged : Purged now full swept) (order : now ≤ time) :
    max swept.lastLeaderTime time = max full.lastLeaderTime time ∧
      Purged time { full with lastLeaderTime := max full.lastLeaderTime time }
        { swept with lastLeaderTime := max swept.lastLeaderTime time } := by
  have present := purged.later order
  refine ⟨present.time, present.config, present.sessions, ?_, present.keys⟩
  change max (max _ _) _ = max (max _ _) _
  rw [present.time]

theorem Purged.advanceApplied (purged : Purged now full swept) (index index' term : Nat) :
    Purged now (full.advanceApplied index term) (swept.advanceApplied index' term) := { purged with }

theorem Purged.mapSessions (purged : Purged now full swept)
    (change : BTreeMap ClientId Session → BTreeMap ClientId Session) :
    Purged now { full with sessions := change full.sessions }
      { swept with sessions := change swept.sessions } :=
  ⟨purged.config, congrArg change purged.sessions, purged.time, purged.keys⟩

theorem applyCommandOnly_agrees (purged : Purged now full swept) (order : now ≤ time)
    (index index' term : Nat) (limits : BatchLimits) {command : KvCommand}
    (client : command.internal = false) (fair : full.fairAction time (.command term command limits)) :
    Agrees time (full.applyCommandOnlyWithBatchLimits index term command time limits)
      (swept.applyCommandOnlyWithBatchLimits index' term command time limits) := by
  obtain ⟨clock, present⟩ := purged.onTime order
  unfold applyCommandOnlyWithBatchLimits
  dsimp only [fairAction] at fair
  rw [monotonicTime_eq] at fair
  rw [monotonicTime_eq, monotonicTime_eq, clock]
  rw [clock] at present
  dsimp only at fair ⊢
  have agree := applyCommandWithBatchLimits_agrees present (le_max_right _ _) limits client fair
  revert agree
  cases applyCommandWithBatchLimits _ command (max full.lastLeaderTime time) limits with
  | mk next outcome => _
  cases applyCommandWithBatchLimits _ command (max full.lastLeaderTime time) limits with
  | mk next' outcome' => _
  rintro ⟨same, keeps⟩
  obtain rfl : outcome' = outcome := same
  cases outcome' with
  | done reply | failed error => exact ((keeps (by simp)).advanceApplied index index' term).agrees _
  | panicked => exact ⟨rfl, fun fine => absurd rfl fine⟩

def execute (kv : Kv) (index term : Nat) (client : ClientId) (sequence : Nat) (command : KvCommand)
    (now : Nat) : Kv × Outcome KvReply :=
  match kv.applyCommandWithBatchLimits command now .default with
  | (next, .done reply) =>
    let next : Kv :=
      if sequence > 0 then
        { next with sessions := next.sessions.insert client ⟨sequence, reply, now⟩ }
      else next
    (next.advanceApplied index term, .done reply)
  | (next, .failed error) => (next, .failed error)
  | (next, .panicked) => (next, .panicked)

theorem execute_agrees (purged : Purged now full swept) (order : now ≤ time) (index index' term : Nat)
    (client : ClientId) (sequence : Nat) {command : KvCommand} (sent : command.internal = false)
    (fair : full.fairCommand time .default command) :
    Agrees now (full.execute index term client sequence command time)
      (swept.execute index' term client sequence command time) := by
  have agree := applyCommandWithBatchLimits_agrees purged order .default sent fair
  unfold execute
  revert agree
  cases full.applyCommandWithBatchLimits command time .default with | mk next outcome => _
  cases swept.applyCommandWithBatchLimits command time .default with | mk next' outcome' => _
  rintro ⟨same, keeps⟩
  obtain rfl : outcome' = outcome := same
  cases outcome' with
  | done reply =>
    have kept := keeps (by simp)
    dsimp only
    split
    · have recorded := kept.mapSessions (·.insert client ⟨sequence, reply, time⟩)
      exact (recorded.advanceApplied index index' term).agrees _
    · exact (kept.advanceApplied index index' term).agrees _
  | failed error => exact (keeps (by simp)).agrees _
  | panicked => exact ⟨rfl, fun fine => absurd rfl fine⟩

theorem apply_agrees (purged : Purged now full swept) (order : now ≤ time) (index index' term : Nat)
    (client : ClientId) (sequence : Nat) {command : KvCommand} (sent : command.internal = false)
    (fair : full.fairAction time (.session term client sequence command)) :
    Agrees time (full.apply index term client sequence command time)
      (swept.apply index' term client sequence command time) := by
  obtain ⟨clock, present⟩ := purged.onTime order
  unfold Kv.apply
  dsimp only [fairAction] at fair
  rw [monotonicTime_eq] at fair
  rw [monotonicTime_eq, monotonicTime_eq, clock]
  rw [clock] at present
  have held' : swept.sessions[client]? = full.sessions[client]? := by rw [purged.sessions]
  unfold executes at fair
  dsimp only at fair ⊢
  cases held : full.sessions[client]? with
  | none =>
    rw [held] at fair held'
    rw [held']
    exact execute_agrees present (le_max_right ..) index index' term client sequence sent fair
  | some session =>
    rw [held] at fair held'
    rw [held']
    dsimp only at fair ⊢
    split
    · have forgotten := present.mapSessions (·.erase client)
      exact (forgotten.advanceApplied index index' term).agrees _
    next active =>
      split
      · exact (present.advanceApplied index index' term).agrees _
      next fresh =>
        split
        · exact (present.advanceApplied index index' term).agrees _
        next other =>
          have newer : session.lastSeq < sequence := by omega
          rw [decide_eq_true (not_lt.mp active), decide_eq_true newer] at fair
          exact execute_agrees present (le_max_right ..) index index' term client sequence sent fair

theorem Purged.drop (purged : Purged now full swept) (expired : full.expired key now)
    (changes : Changes swept key none none swept') : Purged now full swept' := by
  constructor
  · rw [changes.config, purged.config]
  · rw [changes.sessions, purged.sessions]
  · rw [changes.time, purged.time]
  · intro other
    rw [changes.value, changes.deadline]
    by_cases same : key = other
    · subst same
      simp [expired]
    · simp only [same, if_false]
      exact purged.keys other

theorem Purged.purgeKeys {keys : List Bytes} (purged : Purged now full swept)
    (expired : ∀ key ∈ keys, full.expired key now) : Purged now full (swept.purgeKeys keys).1 := by
  induction keys generalizing swept with
  | nil => exact purged
  | cons key rest ih =>
    unfold Kv.purgeKeys
    rcases swept.discard_cases key with ⟨error, -, refused⟩ | ⟨next, -, done, changes⟩
    · rw [refused]
      exact purged
    · rw [done]
      exact ih (purged.drop (expired key (by simp)) changes) fun key member =>
        expired key (List.mem_cons_of_mem _ member)

theorem expired_of_mem_expiredKeys {upTo items : Nat} (member : key ∈ kv.expiredKeys upTo items) :
    kv.expired key upTo := by
  unfold expiredKeys at member
  obtain ⟨⟨deadline, held⟩, listed, rfl⟩ := List.mem_map.mp member
  have early := List.mem_of_mem_take listed
  have passed : deadline ≤ upTo := by simpa using List.mem_takeWhile_imp early
  have indexed := (List.takeWhile_prefix _).subset early
  rw [Std.ExtTreeSet.mem_toList, ← Std.ExtTreeSet.contains_iff_mem, kv.indexed] at indexed
  unfold Kv.expired
  rw [indexed]
  exact decide_eq_true passed

theorem sweep_purged (purged : Purged now full swept) (order : now ≤ time) (index term : Nat)
    {upTo : Nat} (due : upTo ≤ time) (limits : BatchLimits) : Purged time full
        (swept.applyCommandOnlyWithBatchLimits index term (.op (.purgeExpired upTo)) time limits).1 ∧
      (swept.applyCommandOnlyWithBatchLimits index term (.op (.purgeExpired upTo)) time limits).2 ≠
        .panicked := by
  have present := purged.later order
  unfold applyCommandOnlyWithBatchLimits
  rw [monotonicTime_eq]
  dsimp only [applyCommandWithBatchLimits, applyOp]
  have ready : Purged time full { swept with lastLeaderTime := max swept.lastLeaderTime time } := by
    refine ⟨present.config, present.sessions, ?_, present.keys⟩
    change max (max _ _) _ = _
    rw [present.time, max_assoc, max_self]
  have listed := fun key (member : key ∈ expiredKeys _ upTo limits.maxExpiryItems) =>
    ready.expired_imp (expired_mono due (expired_of_mem_expiredKeys member))
  have done := ready.purgeKeys listed
  revert done
  cases Kv.purgeKeys _ _ with | mk next result => _
  intro done
  cases result with
  | error error | ok _ => exact ⟨{ done with }, by simp⟩

def answers : Kv → List (Nat × Action) → List (Outcome KvReply)
  | _, [] => []
  | kv, (time, action) :: rest =>
    match kv.perform time action with
    | (_, .panicked) => [.panicked]
    | (next, outcome) =>
      if action.isSweep then next.answers rest else outcome :: next.answers rest

def fairAll : Kv → List (Nat × Action) → Bool
  | _, [] => true
  | kv, (time, action) :: rest =>
    kv.fairAction time action && match kv.perform time action with
      | (_, .panicked) => true
      | (next, _) => next.fairAll rest

def withoutSweeps (steps : List (Nat × Action)) : List (Nat × Action) :=
  steps.filter fun step => !step.2.isSweep

theorem Purged.perform (purged : Purged now full swept) (order : now ≤ time) {action : Action}
    (request : action.isSweep = false) (proper : action.proper time) (fair : full.fairAction time action) :
    Agrees time (full.perform time action) (swept.perform time action) := by
  cases action with
  | command term command limits =>
    exact applyCommandOnly_agrees purged order _ _ term limits (by simpa [Action.proper] using proper) fair
  | session term client sequence command =>
    exact apply_agrees purged order _ _ term client sequence (by simpa [Action.proper] using proper) fair
  | read op =>
    have present := purged.later order
    have same : swept.read op time = full.read op time := by
      cases op
      case get key => simp [Kv.read, present.visible]
      case ttl key => simp [Kv.read, present.ttlSeconds]
      case scan start stop limit => simp [Kv.read, present.visibleScan (of_decide_eq_true fair)]
      all_goals rfl
    dsimp only [Kv.perform]
    rw [same]
    cases full.read op time with
    | ok reply | error error => exact present.agrees _
  | sweep term upTo limits => cases request

theorem Purged.answers {steps : List (Nat × Action)} (purged : Purged now full swept)
    (ordered : (steps.map Prod.fst).Pairwise (· ≤ ·)) (after : ∀ step ∈ steps, now ≤ step.1)
    (proper : ∀ step ∈ steps, step.2.proper step.1) (fair : full.fairAll (withoutSweeps steps)) :
    swept.answers steps = full.answers (withoutSweeps steps) := by
  induction steps generalizing now full swept with
  | nil => rfl
  | cons step rest ih =>
    obtain ⟨time, action⟩ := step
    rw [List.map_cons, List.pairwise_cons] at ordered
    have order := after (time, action) (by simp)
    have onward : ∀ step ∈ rest, time ≤ step.1 := fun step member =>
      ordered.1 _ (List.mem_map_of_mem member)
    have due : action.proper time := proper (time, action) (by simp)
    have proper' : ∀ step ∈ rest, step.2.proper step.1 := fun step member =>
      proper step (List.mem_cons_of_mem _ member)
    cases sweeping : action.isSweep with
    | true =>
      -- Only the swept side moves.
      have hidden : withoutSweeps ((time, action) :: rest) = withoutSweeps rest := by
        simp [withoutSweeps, sweeping]
      rw [hidden] at fair ⊢
      cases action with
      | sweep term upTo limits =>
        obtain ⟨kept, fine⟩ := sweep_purged purged order (swept.appliedIndex + 1) term
          (of_decide_eq_true due) limits
        rw [Kv.answers]
        change Purged time full (swept.perform time (.sweep term upTo limits)).1 at kept
        change (swept.perform time (.sweep term upTo limits)).2 ≠ _ at fine
        revert kept fine
        cases swept.perform time (.sweep term upTo limits) with | mk next outcome => _
        intro kept fine
        have later := ih kept ordered.2 onward proper' fair
        cases outcome with
        | panicked => exact absurd rfl fine
        | done reply | failed error => exact later
      | _ => cases sweeping
    | false =>
      have shown : withoutSweeps ((time, action) :: rest) = (time, action) :: withoutSweeps rest := by
        simp [withoutSweeps, sweeping]
      rw [shown] at fair ⊢
      rw [fairAll, Bool.and_eq_true] at fair
      have agree := purged.perform order sweeping due fair.1
      have fairLater := fair.2
      unfold Kv.answers
      revert agree fairLater
      cases full.perform time action with | mk next outcome => _
      cases swept.perform time action with | mk next' outcome' => _
      rintro ⟨same, keeps⟩ fairLater
      obtain rfl : outcome' = outcome := same
      rw [sweeping]
      cases outcome' with
      | panicked => rfl
      | done reply => exact congrArg (_ :: ·) (ih (keeps (by simp)) ordered.2 onward proper' fairLater)
      | failed error =>
        exact congrArg (_ :: ·) (ih (keeps (by simp)) ordered.2 onward proper' fairLater)

theorem Purged.refl (kv : Kv) (now : Nat) : Purged now kv kv :=
  ⟨rfl, rfl, rfl, fun _ => .inl ⟨rfl, rfl⟩⟩

/-- Sweeps inserted anywhere into a run of fair client requests at nondecreasing times
leave every answer as it is. -/
theorem sweeps_unseen (kv : Kv) (steps : List (Nat × Action))
    (ordered : (steps.map Prod.fst).Pairwise (· ≤ ·)) (proper : ∀ step ∈ steps, step.2.proper step.1)
    (fair : kv.fairAll (withoutSweeps steps)) : kv.answers steps = kv.answers (withoutSweeps steps) :=
  (Purged.refl kv 0).answers ordered (fun _ _ => Nat.zero_le _) proper fair

/-- A key that expires at 1, a sweep at 5 and then a request for the key. -/
def sweptScript (request : KvCommand) : List (Nat × Action) :=
  [(0, .command 1 (.op (.set [107] [118] (some 1))) .default),
   (5, .sweep 1 5 .default),
   (5, .command 1 request .default),
   (6, .read (.get [107]))]

theorem sweeps_unseen_getSet : (new .default).answers (sweptScript (.op (.getSet [107] [119]))) =
      (new .default).answers (withoutSweeps (sweptScript (.op (.getSet [107] [119])))) :=
  sweeps_unseen (new .default) (sweptScript (.op (.getSet [107] [119]))) (by decide) (by decide)
    (by decide +kernel)

/-- `GetDel` on an expired key answers that it is absent and then brings its value back. -/
theorem getDel_revives_expired : ((sweptScript (.op (.getDel [107]))).map Prod.fst).Pairwise (· ≤ ·) ∧
    (∀ step ∈ sweptScript (.op (.getDel [107])), step.2.proper step.1) ∧
    (new .default).answers (sweptScript (.op (.getDel [107]))) =
      [.done (.op .ok), .done (.op (.value none)), .done (.op (.value none))] ∧
    (new .default).answers (withoutSweeps (sweptScript (.op (.getDel [107])))) =
      [.done (.op .ok), .done (.op (.value none)), .done (.op (.value (some [118])))] := by
  refine ⟨by decide, by decide, by decide +kernel, by decide +kernel⟩

end Kv
end CrashCourse.KeyValue
