import CrashCourse.Cluster.Sessions

/-!
Whether a request is carried out once. The last request of a client that ran is kept as a
record while the client is active and as a tombstone for a while after.
-/

namespace CrashCourse.Cluster
open CrashCourse.Core CrashCourse.KeyValue

namespace SessionTable
variable {table next : SessionTable} {policy : ClusterPolicy} {key : SessionKey} {upTo : Nat}

def SameFor (key : SessionKey) (table next : SessionTable) : Prop :=
  next.records[key]? = table.records[key]? ∧ next.tombstones[key]? = table.tombstones[key]?

variable {entry : Nat × SessionKey × Bool}

theorem expireOne_other (other : entry.2.1 ≠ key) : SameFor key table (expireOne policy upTo table entry) := by
  obtain ⟨deadline, owner, tombstone⟩ := entry
  unfold expireOne
  dsimp only at other ⊢
  split
  · refine ⟨rfl, ?_⟩
    rw [Std.ExtTreeMap.getElem?_erase]
    simp [other]
  · split
    · exact ⟨rfl, rfl⟩
    · split
      · refine ⟨?_, ?_⟩
        · change (table.records.erase owner)[key]? = _
          rw [Std.ExtTreeMap.getElem?_erase]
          simp [other]
        · change (table.tombstones.insert owner _)[key]? = _
          rw [Std.ExtTreeMap.getElem?_insert]
          simp [other]
      · refine ⟨?_, rfl⟩
        change (table.records.erase owner)[key]? = _
        rw [Std.ExtTreeMap.getElem?_erase]
        simp [other]

structure Due (table : SessionTable) (policy : ClusterPolicy) (upTo : Nat)
    (entry : Nat × SessionKey × Bool) : Prop where
  due : entry.1 ≤ upTo
  record : entry.2.2 = false → ∃ record, table.records[entry.2.1]? = some record ∧
    entry.1 = saturatingAdd record.lastActive policy.sessionIdleNs
  tombstone : entry.2.2 = true → ∃ tombstone, table.tombstones[entry.2.1]? = some tombstone ∧
    entry.1 = tombstone.expiresAt

theorem due_of_mem {maxItems : Nat} {pinned : Option SessionKey}
    (member : entry ∈ table.dueEntries policy upTo maxItems pinned) : Due table policy upTo entry := by
  unfold dueEntries at member
  have sorted := List.mem_mergeSort.mp (List.mem_of_mem_take member)
  obtain ⟨listed, due⟩ := List.mem_filter.mp sorted
  unfold deadlines at listed
  rcases List.mem_append.mp listed with listed | listed
  · obtain ⟨⟨owner, record⟩, held, rfl⟩ := List.mem_map.mp listed
    refine ⟨of_decide_eq_true due, fun _ => ⟨record, ?_, rfl⟩, nofun⟩
    exact Std.ExtTreeMap.mem_toList_iff_getElem?_eq_some.mp (List.mem_filter.mp held).1
  · obtain ⟨⟨owner, tombstone⟩, held, rfl⟩ := List.mem_map.mp listed
    refine ⟨of_decide_eq_true due, nofun, fun _ => ⟨tombstone, ?_, rfl⟩⟩
    exact Std.ExtTreeMap.mem_toList_iff_getElem?_eq_some.mp (List.mem_filter.mp held).1

/-- A record does not go at the very instant at which its client becomes idle, and it
leaves a tombstone while the grace lasts. -/
def expireOneKeeps (policy : ClusterPolicy) (upTo : Nat) (table : SessionTable)
    (entry : Nat × SessionKey × Bool) : Bool :=
  entry.2.2 || !table.records.contains entry.2.1 ||
    (entry.1 != upTo && (decide (saturatingAdd entry.1 policy.sessionRetryGraceNs ≤ upTo) ||
      decide (table.tombstones.size < policy.maxSessionTombstones)))

def expireKeeps (policy : ClusterPolicy) (upTo : Nat) : SessionTable → List (Nat × SessionKey × Bool) → Bool
  | _, [] => true
  | table, entry :: rest =>
    expireOneKeeps policy upTo table entry && expireKeeps policy upTo (expireOne policy upTo table entry) rest

def graceEnd (policy : ClusterPolicy) (record : SessionRecord) : Nat :=
  saturatingAdd (saturatingAdd record.lastActive policy.sessionIdleNs) policy.sessionRetryGraceNs

/-- Where the request that a client remembers can be found, at log time `time`. -/
inductive Keeps (policy : ClusterPolicy) (time : Nat) (key : SessionKey) (record : SessionRecord)
    (table : SessionTable) : Prop
  | active (held : table.records[key]? = some record) (apart : table.tombstones[key]? = none)
  | resting (gone : table.records[key]? = none)
      (idle : record.lastActive + policy.sessionIdleNs < time)
      (grace : graceEnd policy record ≤ time ∨
        ∃ tombstone, table.tombstones[key]? = some tombstone ∧
          graceEnd policy record ≤ tombstone.expiresAt)

variable {time : Nat} {record : SessionRecord}

theorem Keeps.later {time' : Nat} (keeps : Keeps policy time key record table) (order : time ≤ time') :
    Keeps policy time' key record table := by
  cases keeps with
  | active held apart => exact .active held apart
  | resting gone idle grace =>
    refine .resting gone (idle.trans_le order) ?_
    rcases grace with ended | left
    · exact .inl (ended.trans order)
    · exact .inr left

theorem Keeps.same (keeps : Keeps policy time key record table) (same : SameFor key table next) :
    Keeps policy time key record next := by
  cases keeps with
  | active held apart => exact .active (same.1.trans held) (same.2.trans apart)
  | resting gone idle grace =>
    refine .resting (same.1.trans gone) idle ?_
    rw [same.2]
    exact grace

theorem expireOne_own (held : table.records[key]? = some record)
    (due : saturatingAdd record.lastActive policy.sessionIdleNs ≤ upTo) (early : upTo ≤ time)
    (bounded : upTo ≤ u64Max) (keeps : expireOneKeeps policy upTo table
      (saturatingAdd record.lastActive policy.sessionIdleNs, key, false)) :
    Keeps policy time key record (expireOne policy upTo table
      (saturatingAdd record.lastActive policy.sessionIdleNs, key, false)) := by
  have present : table.records.contains key := by
    rw [← Std.ExtTreeMap.isSome_getElem?_eq_contains, held]
    rfl
  simp only [expireOneKeeps, present, Bool.not_true, Bool.or_false, Bool.false_or, Bool.and_eq_true,
    bne_iff_ne, ne_eq, Bool.or_eq_true, decide_eq_true_eq] at keeps
  obtain ⟨strict, room⟩ := keeps
  have idle : record.lastActive + policy.sessionIdleNs < time := by
    unfold saturatingAdd at due strict
    omega
  have gone : (table.records.erase key)[key]? = none := by simp
  simp only [expireOne, Bool.false_eq_true, if_false, held]
  split
  next taken =>
    refine .resting gone idle (.inr ⟨⟨record.maxSeq, graceEnd policy record⟩, ?_, le_refl _⟩)
    change (table.tombstones.insert key _)[key]? = _
    simp [graceEnd]
  next dropped =>
    refine .resting gone idle (.inl ?_)
    rcases room with ended | room
    · exact ended.trans early
    · by_contra left
      exact dropped ⟨by unfold graceEnd at left; omega, room⟩

theorem expireOne_keeps (early : upTo ≤ time) (bounded : upTo ≤ u64Max) (due : entry.1 ≤ upTo)
    (mine : entry.2.1 = key → entry.2.2 = false → entry.1 = saturatingAdd record.lastActive policy.sessionIdleNs)
    (ended : entry.2.1 = key → entry.2.2 = true → graceEnd policy record ≤ time)
    (fair : expireOneKeeps policy upTo table entry) (keeps : Keeps policy time key record table) :
    Keeps policy time key record (expireOne policy upTo table entry) := by
  by_cases same : entry.2.1 = key
  · obtain ⟨deadline, owner, tombstone⟩ := entry
    obtain rfl : owner = key := same
    cases tombstone with
    | true =>
      have erased : (table.tombstones.erase owner)[owner]? = none := by simp
      cases keeps with
      | active held apart => exact .active held erased
      | resting gone idle grace => exact .resting gone idle (.inl (ended rfl rfl))
    | false =>
      cases keeps with
      | active held apart =>
        obtain rfl := mine rfl rfl
        exact expireOne_own held due early bounded fair
      | resting gone idle grace =>
        -- The record is gone already, so the step finds nothing.
        simp only [expireOne, Bool.false_eq_true, if_false, gone]
        exact .resting gone idle grace
  · exact keeps.same (expireOne_other same)

theorem foldl_keeps {entries : List (Nat × SessionKey × Bool)} (early : upTo ≤ time)
    (bounded : upTo ≤ u64Max) (due : ∀ entry ∈ entries, entry.1 ≤ upTo)
    (mine : ∀ entry ∈ entries, entry.2.1 = key → entry.2.2 = false →
      entry.1 = saturatingAdd record.lastActive policy.sessionIdleNs)
    (ended : ∀ entry ∈ entries, entry.2.1 = key → entry.2.2 = true → graceEnd policy record ≤ time)
    (fair : expireKeeps policy upTo table entries) (keeps : Keeps policy time key record table) :
    Keeps policy time key record (entries.foldl (expireOne policy upTo) table) := by
  induction entries generalizing table with
  | nil => exact keeps
  | cons entry rest ih =>
    rw [expireKeeps, Bool.and_eq_true] at fair
    rw [List.forall_mem_cons] at due mine ended
    exact ih due.2 mine.2 ended.2 fair.2
      (expireOne_keeps early bounded due.1 mine.1 ended.1 fair.1 keeps)

theorem expireDue_keeps {maxItems : Nat} {pinned : Option SessionKey} (early : upTo ≤ time) (bounded : upTo ≤ u64Max)
    (fair : expireKeeps policy upTo table (table.dueEntries policy upTo maxItems pinned))
    (keeps : Keeps policy time key record table) :
    Keeps policy time key record (table.expireDue policy upTo maxItems pinned) := by
  refine foldl_keeps early bounded (fun entry member => (due_of_mem member).due) ?_ ?_ fair keeps
  · rintro ⟨deadline, owner, tombstone⟩ member rfl plain
    obtain ⟨held, here, same⟩ := (due_of_mem member).record plain
    cases keeps with
    | active held' apart =>
      obtain rfl : held = record := Option.some.inj (here.symm.trans held')
      exact same
    | resting gone idle grace =>
      rw [gone] at here
      cases here
  · rintro ⟨deadline, owner, tombstone⟩ member rfl marked
    obtain ⟨stone, here, same⟩ := (due_of_mem member).tombstone marked
    cases keeps with
    | active held apart =>
      rw [apart] at here
      cases here
    | resting gone idle grace =>
      rcases grace with ended | ⟨stone', here', left⟩
      · exact ended
      · obtain rfl : stone = stone' := Option.some.inj (here.symm.trans here')
        exact left.trans (same.ge.trans ((due_of_mem member).due.trans early))

theorem getElem?_retainTombstones (at_ : Nat) : (table.retainTombstones at_).tombstones[key]? =
      table.tombstones[key]?.filter fun tombstone => decide (tombstone.expiresAt > at_) :=
  Std.ExtTreeMap.getElem?_filter'

theorem Keeps.retain {at_ : Nat} (keeps : Keeps policy time key record table) (order : time ≤ at_) :
    Keeps policy at_ key record (table.retainTombstones at_) := by
  cases keeps with
  | active held apart =>
    refine .active held ?_
    rw [getElem?_retainTombstones, apart]
    rfl
  | resting gone idle grace =>
    refine .resting gone (idle.trans_le order) ?_
    rcases grace with ended | ⟨tombstone, here, left⟩
    · exact .inl (ended.trans order)
    by_cases kept : tombstone.expiresAt > at_
    · refine .inr ⟨tombstone, ?_, left⟩
      rw [getElem?_retainTombstones, here]
      simp [kept]
    · exact .inl (left.trans (not_lt.mp kept))

def hasRoom (table : SessionTable) (policy : ClusterPolicy) (key : SessionKey)
    (canonicalCommand : Bytes) : Bool :=
  (table.records.contains key || decide (table.records.size < policy.maxSessions)) &&
    decide (saturatingAdd (saturatingAdd (table.encodedBytes - table.existingBytes key)
      canonicalCommand.length) policy.maxReplyBytes ≤ policy.maxSessionBytes)

def runs (table : SessionTable) (policy : ClusterPolicy) (key : SessionKey) (sequence : Nat)
    (canonicalCommand : Bytes) (at_ : Nat) : Bool :=
  sequence == 0 ||
    (!(table.retainTombstones at_).tombstones.contains key &&
      (table.records[key]?.all fun record =>
        decide (at_ - record.lastActive ≤ policy.sessionIdleNs) && decide (record.maxSeq < sequence)) &&
      (table.retainTombstones at_).hasRoom policy key canonicalCommand)

def recordFits (table : SessionTable) (policy : ClusterPolicy) (key : SessionKey)
    (canonicalCommand : Bytes) (reply : KvReply) : Bool :=
  decide (saturatingAdd (table.encodedBytes - table.existingBytes key)
    (canonicalCommand.length + (encodeReply reply).length) ≤ policy.maxSessionBytes)

section Request
variable {σ : Type} {owner : SessionKey} {sequence at_ : Nat} {canonicalCommand : Bytes}
  {mutate : σ → σ × Outcome KvReply} {state : σ}

theorem runUser_full (full : table.hasRoom policy key canonicalCommand = false) :
    table.runUser policy key sequence canonicalCommand at_ mutate state =
      (table, state, .done (.op (.error .busy))) := by
  unfold runUser
  dsimp only
  split
  · rfl
  next known =>
    split
    · rfl
    next fits =>
      have room : table.hasRoom policy key canonicalCommand := by
        simp only [hasRoom, Bool.and_eq_true, Bool.or_eq_true, decide_eq_true_eq]
        simp only [Bool.not_eq_true', ge_iff_le, not_and, not_le] at known
        refine ⟨?_, not_lt.mp fits⟩
        cases present : table.records.contains key with
        | true => exact .inl rfl
        | false => exact .inr (known present)
      rw [full] at room
      cases room

theorem runUser_room (room : table.hasRoom policy key canonicalCommand) :
    table.runUser policy key sequence canonicalCommand at_ mutate state =
      match mutate state with
      | (state, .done reply) =>
        if table.recordFits policy key canonicalCommand reply then
          ({ table with
              records := table.records.insert key
                ⟨sequence, canonicalCommand, encodeReply reply, at_⟩ }, state, .done reply)
        else (table, state, .done (.op (.error .busy)))
      | (state, outcome) => (table, state, outcome) := by
  simp only [hasRoom, Bool.and_eq_true, Bool.or_eq_true, decide_eq_true_eq] at room
  unfold runUser
  dsimp only
  rw [if_neg, if_neg (not_lt.mpr room.2)]
  · rcases mutate state with ⟨next, outcome⟩
    cases outcome with
    | done reply =>
      dsimp only [recordFits]
      simp only [decide_eq_true_eq, ← not_lt, ite_not]
    | _ => rfl
  · rintro ⟨fresh, full⟩
    rcases room.1 with known | free
    · rw [known] at fresh
      cases fresh
    · exact absurd full (not_le.mpr free)

/-- What becomes of the table when a request does not reach its mutation. -/
inductive Declined (policy : ClusterPolicy) (key : SessionKey) (sequence at_ : Nat) (table : SessionTable) :
    SessionTable → Prop
  | kept (untouched : ∀ record, table.records[key]? = some record → table.tombstones[key]? = none →
      ¬ (sequence = record.maxSeq ∧ at_ - record.lastActive ≤ policy.sessionIdleNs)) :
      Declined policy key sequence at_ table table
  | idled {record : SessionRecord} (held : table.records[key]? = some record)
      (late : policy.sessionIdleNs < at_ - record.lastActive) :
      Declined policy key sequence at_ table
        { records := table.records.erase key
          tombstones := table.tombstones.insert key
            ⟨record.maxSeq, saturatingAdd at_ policy.sessionRetryGraceNs⟩ }
  | touched {record : SessionRecord} (held : table.records[key]? = some record)
      (same : sequence = record.maxSeq) (active : at_ - record.lastActive ≤ policy.sessionIdleNs) :
      Declined policy key sequence at_ table (table.touch key record at_)

theorem contains_tombstones : table.tombstones.contains key = table.tombstones[key]?.isSome :=
  Std.ExtTreeMap.isSome_getElem?_eq_contains.symm

theorem applyUser_declined (held : table.runs policy key sequence canonicalCommand at_ = false) :
    ∃ next outcome, table.applyUser policy key sequence canonicalCommand at_ mutate state =
        (next, state, outcome) ∧
      Declined policy key sequence at_ (table.retainTombstones at_) next := by
  simp only [runs, Bool.or_eq_false_iff, beq_eq_false_iff_ne, ne_eq] at held
  obtain ⟨positive, held⟩ := held
  -- The record is the one before the tombstones are cleared.
  have records : (table.retainTombstones at_).records = table.records := rfl
  simp only [applyUser, if_neg positive, contains_tombstones] at held ⊢
  generalize table.retainTombstones at_ = start at held records ⊢
  rw [← records] at held
  cases stone : start.tombstones[key]? with
  | some tombstone =>
    refine ⟨start, _, if_pos rfl, .kept fun record _ clear => ?_⟩
    rw [stone] at clear
    cases clear
  | none =>
    rw [stone] at held
    rw [Option.isSome_none, if_neg Bool.false_ne_true]
    rw [Option.isSome_none, Bool.not_false, Bool.true_and] at held
    cases found : start.records[key]? with
    | none =>
      rw [found, Option.all_none, Bool.true_and] at held
      refine ⟨start, _, runUser_full held, .kept fun record here => ?_⟩
      rw [found] at here
      cases here
    | some record =>
      rw [found, Option.all_some] at held
      have unique : ∀ other, start.records[key]? = some other → other = record :=
        fun other here => Option.some.inj (here.symm.trans found)
      dsimp only
      by_cases late : at_ - record.lastActive > policy.sessionIdleNs
      · rw [if_pos late]
        by_cases full : start.tombstones.size ≥ policy.maxSessionTombstones
        · rw [if_pos full]
          refine ⟨start, _, rfl, .kept fun other here _ both => ?_⟩
          rw [unique other here] at both
          exact absurd both.2 (not_le.mpr late)
        · rw [if_neg full]
          exact ⟨_, _, rfl, .idled found late⟩
      · rw [if_neg late]
        by_cases stale : sequence < record.maxSeq
        · rw [if_pos stale]
          refine ⟨start, _, rfl, .kept fun other here _ both => ?_⟩
          rw [unique other here] at both
          exact absurd both.1 stale.ne
        · rw [if_neg stale]
          by_cases same : sequence = record.maxSeq
          · rw [if_pos same]
            exact ⟨_, _, rfl, .touched found same (not_lt.mp late)⟩
          rw [if_neg same]
          have newer : record.maxSeq < sequence := by omega
          rw [decide_eq_true (not_lt.mp late), decide_eq_true newer, Bool.true_and, Bool.true_and] at held
          refine ⟨start, _, runUser_full held, .kept fun other here _ both => ?_⟩
          rw [unique other here] at both
          exact absurd both.1 same

theorem applyUser_runs (positive : sequence ≠ 0) (ran : table.runs policy key sequence canonicalCommand at_) :
    (table.retainTombstones at_).tombstones[key]? = none ∧
    table.applyUser policy key sequence canonicalCommand at_ mutate state =
      match mutate state with
      | (state, .done reply) =>
        if (table.retainTombstones at_).recordFits policy key canonicalCommand reply then
          ({ table.retainTombstones at_ with
              records := table.records.insert key
                ⟨sequence, canonicalCommand, encodeReply reply, at_⟩ }, state, .done reply)
        else (table.retainTombstones at_, state, .done (.op (.error .busy)))
      | (state, outcome) => (table.retainTombstones at_, state, outcome) := by
  simp only [runs, Bool.or_eq_true, beq_iff_eq, positive, false_or, Bool.and_eq_true, contains_tombstones,
    Bool.not_eq_true', Option.isSome_eq_false_iff, Option.isNone_iff_eq_none] at ran
  obtain ⟨⟨clear, newer⟩, room⟩ := ran
  refine ⟨clear, ?_⟩
  have records : (table.retainTombstones at_).records = table.records := rfl
  simp only [applyUser, if_neg positive, contains_tombstones]
  rw [← records] at newer ⊢
  generalize table.retainTombstones at_ = start at clear newer room ⊢
  rw [clear, Option.isSome_none, if_neg Bool.false_ne_true, ← runUser_room room]
  cases found : start.records[key]? with
  | none => rfl
  | some record =>
    simp only [found, Option.all_some, Bool.and_eq_true, decide_eq_true_eq] at newer
    dsimp only
    rw [if_neg (not_lt.mpr newer.1), if_neg (not_lt.mpr newer.2.le), if_neg newer.2.ne']

theorem Declined.other {start : SessionTable} (declined : Declined policy owner sequence at_ start next)
    (other : owner ≠ key) : SameFor key start next := by
  cases declined with
  | kept => exact ⟨rfl, rfl⟩
  | idled held late =>
    constructor
    · change (start.records.erase owner)[key]? = _
      rw [Std.ExtTreeMap.getElem?_erase]
      simp [other]
    · change (start.tombstones.insert owner _)[key]? = _
      rw [Std.ExtTreeMap.getElem?_insert]
      simp [other]
  | touched held same active =>
    refine ⟨?_, rfl⟩
    change (start.records.insert owner _)[key]? = _
    rw [Std.ExtTreeMap.getElem?_insert]
    simp [other]

theorem applyUser_other (positive : sequence ≠ 0) (other : owner ≠ key) : SameFor key (table.retainTombstones at_)
      (table.applyUser policy owner sequence canonicalCommand at_ mutate state).1 := by
  cases ran : table.runs policy owner sequence canonicalCommand at_ with
  | false =>
    have declined : ∃ next outcome, table.applyUser policy owner sequence canonicalCommand at_ mutate
        state = (next, state, outcome) ∧ _ := applyUser_declined ran
    obtain ⟨next, outcome, same, declined⟩ := declined
    rw [same]
    exact declined.other other
  | true =>
    rw [(applyUser_runs positive ran).2]
    rcases mutate state with ⟨next, outcome⟩
    cases outcome with
    | done reply =>
      dsimp only
      split
      · refine ⟨?_, rfl⟩
        change (table.records.insert owner _)[key]? = table.records[key]?
        rw [Std.ExtTreeMap.getElem?_insert]
        simp [other]
      · exact ⟨rfl, rfl⟩
    | _ => exact ⟨rfl, rfl⟩

def refreshed (policy : ClusterPolicy) (sequence at_ : Nat) (record : SessionRecord) : SessionRecord :=
  if sequence = record.maxSeq ∧ at_ - record.lastActive ≤ policy.sessionIdleNs then
    { record with lastActive := at_ }
  else record

theorem Declined.keeps {start : SessionTable} (declined : Declined policy key sequence at_ start next)
    (keeps : Keeps policy at_ key record start) :
    Keeps policy at_ key (refreshed policy sequence at_ record) next := by
  cases keeps with
  | active held apart =>
    cases declined with
    | kept untouched =>
      rw [refreshed, if_neg (untouched record held apart)]
      exact .active held apart
    | @idled other held' late =>
      obtain rfl : other = record := Option.some.inj (held'.symm.trans held)
      rw [refreshed, if_neg fun both => absurd both.2 (not_le.mpr late)]
      have idle : other.lastActive + policy.sessionIdleNs < at_ := by omega
      refine .resting (by simp) idle (.inr ⟨_, Std.ExtTreeMap.getElem?_insert_self, ?_⟩)
      dsimp only [graceEnd, saturatingAdd]
      omega
    | @touched other held' same active =>
      obtain rfl : other = record := Option.some.inj (held'.symm.trans held)
      rw [refreshed, if_pos ⟨same, active⟩]
      exact .active Std.ExtTreeMap.getElem?_insert_self apart
  | resting gone idle grace =>
    cases declined with
    | kept untouched =>
      rw [refreshed, if_neg fun both => by omega]
      exact .resting gone idle grace
    | idled held late =>
      rw [gone] at held
      cases held
    | touched held same active =>
      rw [gone] at held
      cases held

theorem Keeps.not_runs (keeps : Keeps policy time key record table) (order : time ≤ at_)
    (positive : sequence ≠ 0) (older : sequence ≤ record.maxSeq) (within : at_ < graceEnd policy record) :
    table.runs policy key sequence canonicalCommand at_ = false := by
  have kept := keeps.retain order
  simp only [runs, Bool.or_eq_false_iff, beq_eq_false_iff_ne, ne_eq, contains_tombstones]
  refine ⟨positive, ?_⟩
  cases kept with
  | active held apart =>
    have here : table.records[key]? = some record := held
    rw [here, Option.all_some, decide_eq_false (not_lt.mpr older)]
    simp
  | resting gone idle grace =>
    rcases grace with ended | ⟨tombstone, here, left⟩
    · exact absurd within (not_lt.mpr ended)
    · rw [here]
      rfl

theorem Keeps.retry (keeps : Keeps policy time key record table) (order : time ≤ at_)
    (positive : sequence ≠ 0) (same : sequence = record.maxSeq)
    (active : at_ - record.lastActive ≤ policy.sessionIdleNs) :
    table.runs policy key sequence canonicalCommand at_ = false ∧
    (table.applyUser policy key sequence canonicalCommand at_ mutate state).2.2 =
      if record.canonicalCommand = canonicalCommand then
        match decodeReply record.cachedReply with
        | .ok reply => .done reply
        | .error _ => .done (.op (.error .invalidInput))
      else .done (.op (.error .sequenceConflict)) := by
  have kept := keeps.retain order
  cases kept with
  | active held apart =>
    have here : table.records[key]? = some record := held
    constructor
    · simp [runs, positive, here, same.le]
    · cases decoded : decodeReply record.cachedReply <;>
        simp only [applyUser, if_neg positive, contains_tombstones, apart, Option.isSome_none,
          Bool.false_eq_true, if_false, held, if_neg (not_lt.mpr active), if_neg same.not_lt, if_pos same,
          decoded]
  | resting gone idle grace => omega

end Request
end SessionTable

section Runs
variable {policy : ClusterPolicy} {pinned : Option SessionKey} {key : SessionKey} {kv : Kv}
  {sessions : SessionTable} {entry : Proposal}

def Proposal.mutate (policy : ClusterPolicy) (entry : Proposal) (kv : Kv) : Kv × Outcome KvReply :=
  kv.applyCommandOnlyWithBatchLimits entry.index entry.term entry.command entry.leaderTime
    (batchLimits policy)

/-- What `applyProposal` does before the sweep of an entry. -/
def applyRequest (policy : ClusterPolicy) (kv : Kv) (sessions : SessionTable) (entry : Proposal) :
    SessionTable × Kv × Outcome KvReply :=
  match entry.session with
  | some (key, sequence) =>
    sessions.applyUser policy key sequence entry.canonical entry.leaderTime (entry.mutate policy) kv
  | none =>
    let (kv, outcome) := entry.mutate policy kv
    (sessions, kv, outcome)

theorem applyProposal_eq : applyProposal policy pinned kv sessions entry =
    let (sessions, kv, outcome) := applyRequest policy kv sessions entry
    (if kv.appliedIndex < entry.index then kv.markApplied entry.index entry.term entry.leaderTime else kv,
      match entry.command with
      | .op (.expireSessions upTo) => sessions.expireDue policy upTo policy.maxKeysPerExpirySweep pinned
      | _ => sessions,
      outcome) := rfl

/-- The last of the client's requests that ran its mutation, and when the client was
last active. -/
def remember (policy : ClusterPolicy) (key : SessionKey) (kv : Kv) (sessions : SessionTable)
    (memory : Option SessionRecord) (entry : Proposal) : Option SessionRecord :=
  match entry.session with
  | none => memory
  | some (owner, sequence) =>
    if owner = key then
      if sessions.runs policy key sequence entry.canonical entry.leaderTime then
        match (entry.mutate policy kv).2 with
        | .done reply => some ⟨sequence, entry.canonical, encodeReply reply, entry.leaderTime⟩
        | _ => memory
      else memory.map (SessionTable.refreshed policy sequence entry.leaderTime)
    else memory

def SessionRecord.readsBack (record : SessionRecord) : Bool :=
  match decodeReply record.cachedReply with
  | .ok reply => encodeReply reply == record.cachedReply
  | .error _ => false

/-- The request is numbered, its mutation finishes and leaves a record, and a retry
can read the reply. -/
def requestKept (policy : ClusterPolicy) (kv : Kv) (sessions : SessionTable) (entry : Proposal) : Bool :=
  match entry.session with
  | none => true
  | some (key, sequence) =>
    sequence != 0 &&
      if sessions.runs policy key sequence entry.canonical entry.leaderTime then
        match (entry.mutate policy kv).2 with
        | .done reply =>
          (sessions.retainTombstones entry.leaderTime).recordFits policy key entry.canonical reply
        | _ => false
      else sessions.records[key]?.all fun record =>
        sequence != record.maxSeq || entry.canonical != record.canonicalCommand || record.readsBack

def sweepKept (policy : ClusterPolicy) (pinned : Option SessionKey) (kv : Kv) (sessions : SessionTable)
    (entry : Proposal) : Bool :=
  match entry.command with
  | .op (.expireSessions upTo) =>
    let swept := (applyRequest policy kv sessions entry).1
    decide (upTo ≤ entry.leaderTime) && SessionTable.expireKeeps policy upTo swept
      (swept.dueEntries policy upTo policy.maxKeysPerExpirySweep pinned)
  | _ => true

def Remembers (policy : ClusterPolicy) (time : Nat) (key : SessionKey) (memory : Option SessionRecord)
    (sessions : SessionTable) : Prop :=
  ∀ record, memory = some record → SessionTable.Keeps policy time key record sessions

variable {memory : Option SessionRecord} {time sequence : Nat} {history : List (Option SessionKey × Proposal)}

theorem Remembers.later {time' : Nat} (remembers : Remembers policy time key memory sessions) (order : time ≤ time') :
    Remembers policy time' key memory sessions :=
  fun record held => (remembers record held).later order

theorem applyRequest_remembers (remembers : Remembers policy time key memory sessions)
    (order : time ≤ entry.leaderTime) (kept : requestKept policy kv sessions entry) :
    Remembers policy entry.leaderTime key (remember policy key kv sessions memory entry)
      (applyRequest policy kv sessions entry).1 := by
  unfold requestKept at kept
  unfold remember applyRequest
  cases found : entry.session with
  | none => exact remembers.later order
  | some session =>
    obtain ⟨owner, sequence⟩ := session
    rw [found] at kept
    simp only [Bool.and_eq_true, bne_iff_ne, ne_eq] at kept
    obtain ⟨positive, kept⟩ := kept
    dsimp only
    by_cases own : owner = key
    · obtain rfl := own
      rw [if_pos rfl]
      cases ran : sessions.runs policy owner sequence entry.canonical entry.leaderTime with
      | false =>
        have declined : ∃ next outcome, sessions.applyUser policy owner sequence entry.canonical
            entry.leaderTime (entry.mutate policy) kv = (next, kv, outcome) ∧ _ :=
          SessionTable.applyUser_declined ran
        obtain ⟨next, outcome, same, declined⟩ := declined
        rw [same, if_neg Bool.false_ne_true]
        intro record held
        obtain ⟨old, here, rfl⟩ := Option.map_eq_some_iff.mp held
        exact declined.keeps ((remembers old here).retain order)
      | true =>
        rw [ran, if_pos rfl] at kept
        have clear : _ ∧ sessions.applyUser policy owner sequence entry.canonical
            entry.leaderTime (entry.mutate policy) kv = _ := SessionTable.applyUser_runs positive ran
        obtain ⟨clear, same⟩ := clear
        rw [same, if_pos rfl]
        revert kept
        rcases entry.mutate policy kv with ⟨next, outcome⟩
        intro kept
        cases outcome with
        | done reply =>
          dsimp only at kept ⊢
          rw [if_pos kept]
          rintro record ⟨⟩
          exact .active Std.ExtTreeMap.getElem?_insert_self clear
        | _ => cases kept
    · rw [if_neg own]
      intro record held
      exact ((remembers record held).retain order).same (SessionTable.applyUser_other positive own)

theorem applyProposal_remembers (remembers : Remembers policy time key memory sessions)
    (order : time ≤ entry.leaderTime) (bounded : entry.leaderTime ≤ u64Max)
    (request : requestKept policy kv sessions entry) (sweep : sweepKept policy pinned kv sessions entry) :
    Remembers policy entry.leaderTime key (remember policy key kv sessions memory entry)
      (applyProposal policy pinned kv sessions entry).2.1 := by
  have kept := applyRequest_remembers remembers order request
  unfold sweepKept at sweep
  rw [applyProposal_eq]
  dsimp only
  split
  next upTo isSweep =>
    rw [isSweep] at sweep
    simp only [Bool.and_eq_true, decide_eq_true_eq] at sweep
    intro record held
    exact SessionTable.expireDue_keeps sweep.1 (sweep.1.trans bounded) sweep.2 (kept record held)
  next => exact kept

structure Remembered where
  kv : Kv
  sessions : SessionTable
  memory : Option SessionRecord

def applyAll (policy : ClusterPolicy) (key : SessionKey) (start : Remembered)
    (history : List (Option SessionKey × Proposal)) : Remembered :=
  history.foldl (fun state step =>
    let (kv, sessions, _) := applyProposal policy step.1 state.kv state.sessions step.2
    ⟨kv, sessions, remember policy key state.kv state.sessions state.memory step.2⟩) start

def allKept (policy : ClusterPolicy) : Kv → SessionTable → List (Option SessionKey × Proposal) → Bool
  | _, _, [] => true
  | kv, sessions, (pinned, entry) :: rest =>
    let (kv', sessions', _) := applyProposal policy pinned kv sessions entry
    requestKept policy kv sessions entry && sweepKept policy pinned kv sessions entry &&
      allKept policy kv' sessions' rest

theorem applyAll_remembers {start : Remembered} {final : Nat}
    (remembers : Remembers policy time key start.memory start.sessions)
    (later : ∀ step ∈ history, time ≤ step.2.leaderTime) (before : time ≤ final)
    (sorted : history.Pairwise fun earlier step => earlier.2.leaderTime ≤ step.2.leaderTime)
    (bounded : ∀ step ∈ history, step.2.leaderTime ≤ u64Max) (last : ∀ step ∈ history, step.2.leaderTime ≤ final)
    (kept : allKept policy start.kv start.sessions history) :
    Remembers policy final key (applyAll policy key start history).memory
      (applyAll policy key start history).sessions := by
  induction history generalizing start time with
  | nil => exact remembers.later before
  | cons step rest ih =>
    rw [List.forall_mem_cons] at later bounded last
    rw [List.pairwise_cons] at sorted
    simp only [allKept, Bool.and_eq_true] at kept
    exact ih (applyProposal_remembers remembers later.1 bounded.1 kept.1.1 kept.1.2) sorted.1 last.1
      sorted.2 bounded.2 last.2 kept.2

theorem allKept_append {rest : List (Option SessionKey × Proposal)} {start : Remembered}
    (kept : allKept policy start.kv start.sessions (history ++ rest)) :
    allKept policy start.kv start.sessions history ∧
      allKept policy (applyAll policy key start history).kv (applyAll policy key start history).sessions
        rest := by
  induction history generalizing start with
  | nil => exact ⟨rfl, kept⟩
  | cons step history ih =>
    simp only [List.cons_append, allKept, Bool.and_eq_true] at kept ⊢
    obtain ⟨first, others⟩ :=
      @ih ⟨_, _, remember policy key start.kv start.sessions start.memory step.2⟩ kept.2
    exact ⟨⟨kept.1, first⟩, others⟩

theorem applyProposal_idle (sent : entry.session = some (key, sequence))
    (held : sessions.runs policy key sequence entry.canonical entry.leaderTime = false) :
    (applyProposal policy pinned kv sessions entry).1 =
      if kv.appliedIndex < entry.index then kv.markApplied entry.index entry.term entry.leaderTime
      else kv := by
  have declined : ∃ next outcome, sessions.applyUser policy key sequence entry.canonical
      entry.leaderTime (entry.mutate policy) kv = (next, kv, outcome) ∧ _ :=
    SessionTable.applyUser_declined held
  obtain ⟨next, outcome, same, -⟩ := declined
  rw [applyProposal_eq, applyRequest, sent]
  dsimp only
  rw [same]

theorem applyProposal_outcome (sent : entry.session = some (key, sequence)) :
    (applyProposal policy pinned kv sessions entry).2.2 =
      (sessions.applyUser policy key sequence entry.canonical entry.leaderTime (entry.mutate policy)
        kv).2.2 := by
  rw [applyProposal_eq, applyRequest, sent]

theorem SessionRecord.readsBack_iff {record : SessionRecord} : record.readsBack ↔
    ∃ reply, decodeReply record.cachedReply = .ok reply ∧ encodeReply reply = record.cachedReply := by
  unfold SessionRecord.readsBack
  cases decodeReply record.cachedReply with
  | ok reply | error error => simp

theorem lt_graceEnd {record : SessionRecord} {at_ : Nat} (bounded : at_ < u64Max)
    (within : at_ < record.lastActive + policy.sessionIdleNs + policy.sessionRetryGraceNs) :
    at_ < SessionTable.graceEnd policy record := by
  dsimp only [SessionTable.graceEnd, saturatingAdd]
  omega

end Runs

/-- In a history that keeps the retry state, a request that ran does not run again
before the grace is over, and a retry of an active client gets the same reply. -/
theorem request_runs_once (policy : ClusterPolicy) (key : SessionKey) (kv : Kv) (sessions : SessionTable)
    (history : List (Option SessionKey × Proposal)) (pinned : Option SessionKey) (entry : Proposal)
    (sequence : Nat) (record : SessionRecord) (sorted : (history ++ [(pinned, entry)]).Pairwise fun earlier step =>
      earlier.2.leaderTime ≤ step.2.leaderTime)
    (bounded : ∀ step ∈ history ++ [(pinned, entry)], step.2.leaderTime < u64Max)
    (kept : allKept policy kv sessions (history ++ [(pinned, entry)])) (sent : entry.session = some (key, sequence))
    (ran : (applyAll policy key ⟨kv, sessions, none⟩ history).memory = some record) :
    let state := applyAll policy key ⟨kv, sessions, none⟩ history
    let next := applyProposal policy pinned state.kv state.sessions entry
    let unmoved := if state.kv.appliedIndex < entry.index then
      state.kv.markApplied entry.index entry.term entry.leaderTime else state.kv
    (sequence ≤ record.maxSeq →
      entry.leaderTime < record.lastActive + policy.sessionIdleNs + policy.sessionRetryGraceNs →
      next.1 = unmoved) ∧
    (sequence = record.maxSeq → entry.leaderTime ≤ record.lastActive + policy.sessionIdleNs →
      next.1 = unmoved ∧
      (entry.canonical = record.canonicalCommand →
        ∃ reply, next.2.2 = .done reply ∧ encodeReply reply = record.cachedReply) ∧
      (entry.canonical ≠ record.canonicalCommand →
        next.2.2 = .done (.op (.error .sequenceConflict)))) := by
  intro state next unmoved
  rw [List.pairwise_append] at sorted
  have present : entry.leaderTime < u64Max := bounded (pinned, entry) (by simp)
  let start : Remembered := ⟨kv, sessions, none⟩
  have split : allKept policy kv sessions history ∧
      allKept policy state.kv state.sessions [(pinned, entry)] :=
    allKept_append (show allKept policy start.kv start.sessions _ from kept)
  simp only [allKept, requestKept, sent, Bool.and_eq_true, bne_iff_ne, ne_eq] at split
  obtain ⟨before, ⟨⟨positive, request⟩, -⟩, -⟩ := split
  have fresh : Remembers policy 0 key start.memory start.sessions := nofun
  have keeps : SessionTable.Keeps policy entry.leaderTime key record state.sessions :=
    applyAll_remembers fresh (fun _ _ => Nat.zero_le _) (Nat.zero_le _)
      sorted.1 (fun step member => (bounded step (List.mem_append_left _ member)).le)
      (fun step member => sorted.2.2 step member (pinned, entry) (by simp)) before record ran
  constructor
  · intro older within
    exact applyProposal_idle sent
      (keeps.not_runs le_rfl positive older (lt_graceEnd present within))
  · intro same active
    have window : entry.leaderTime - record.lastActive ≤ policy.sessionIdleNs := by omega
    have retry : _ ∧ (state.sessions.applyUser policy key sequence entry.canonical entry.leaderTime
      (entry.mutate policy) state.kv).2.2 = _ := keeps.retry le_rfl positive same window
    obtain ⟨idle, answer⟩ := retry
    refine ⟨applyProposal_idle sent idle, ?_, ?_⟩
    · intro identical
      cases keeps with
      | resting gone idle grace => omega
      | active held apart =>
        rw [idle, held, Option.all_some] at request
        simp only [Bool.false_eq_true, if_false, same, identical, bne_self_eq_false, Bool.false_or,
          SessionRecord.readsBack_iff] at request
        obtain ⟨reply, decoded, bytes⟩ := request
        refine ⟨reply, ?_, bytes⟩
        change (applyProposal policy pinned state.kv state.sessions entry).2.2 = _
        rw [applyProposal_outcome sent, answer, if_pos identical.symm, decoded]
    · intro different
      change (applyProposal policy pinned state.kv state.sessions entry).2.2 = _
      rw [applyProposal_outcome sent, answer, if_neg (Ne.symm different)]

def incrementOf (client : ClientId) (key : Bytes) (index leaderTime : Nat) : Proposal where
  index := index
  term := 1
  session := some (⟨0, client⟩, 1)
  leaderTime := leaderTime
  command := .op (.incr key 1)
  canonical := encodeCommand (.op (.incr key 1))

theorem request_runs_once_increment :
    let state := applyAll .default ⟨0, 1⟩ ⟨.new .default, .empty, none⟩ [(none, incrementOf 1 [97] 1 0)]
    ∃ reply, (applyProposal .default none state.kv state.sessions (incrementOf 1 [97] 2 5)).2.2 =
      .done reply ∧ encodeReply reply = encodeReply (.op (.integer 1)) :=
  ((request_runs_once .default ⟨0, 1⟩ (.new .default) .empty [(none, incrementOf 1 [97] 1 0)] none
    (incrementOf 1 [97] 2 5) 1
    ⟨1, encodeCommand (.op (.incr [97] 1)), encodeReply (.op (.integer 1)), 0⟩ (by decide) (by decide)
    (by decide +kernel) rfl (by decide +kernel)).2 rfl (by decide)).2.1 rfl

def sweepAt (index leaderTime : Nat) : Proposal where
  index := index
  term := 1
  session := none
  leaderTime := leaderTime
  command := .op (.expireSessions leaderTime)
  canonical := encodeCommand (.op (.expireSessions leaderTime))

def singleTombstone : ClusterPolicy := { ClusterPolicy.default with maxSessionTombstones := 1 }

def idleHistory : List (Option SessionKey × Proposal) :=
  [(none, incrementOf 1 [97] 1 0), (none, incrementOf 2 [98] 2 0),
    (none, sweepAt 3 (singleTombstone.sessionIdleNs + 1))]

theorem SessionTable.dueEntries_of_sorted {table : SessionTable} {policy : ClusterPolicy}
    {upTo maxItems : Nat} {pinned : Option SessionKey}
    (sorted : ((table.deadlines policy pinned).filter fun entry => decide (entry.1 ≤ upTo)).Pairwise
      fun left right => (compare left right).isLE) : table.dueEntries policy upTo maxItems pinned =
      ((table.deadlines policy pinned).filter fun entry => decide (entry.1 ≤ upTo)).take maxItems := by
  rw [SessionTable.dueEntries, List.mergeSort_of_pairwise sorted]

theorem idleHistory_sessions : (applyAll singleTombstone ⟨0, 2⟩ ⟨.new .default, .empty, none⟩ idleHistory).sessions =
      ⟨∅, (∅ : BTreeMap SessionKey SessionTombstone).insert ⟨0, 1⟩
        ⟨1, singleTombstone.sessionIdleNs + singleTombstone.sessionRetryGraceNs⟩⟩ := by
  change SessionTable.expireDue
    (applyAll singleTombstone ⟨0, 2⟩ ⟨.new .default, .empty, none⟩
      [(none, incrementOf 1 [97] 1 0), (none, incrementOf 2 [98] 2 0)]).sessions
    singleTombstone (singleTombstone.sessionIdleNs + 1) singleTombstone.maxKeysPerExpirySweep none = _
  rw [SessionTable.expireDue, SessionTable.dueEntries_of_sorted (by decide +kernel)]
  decide +kernel

/-- The sweep has room for one tombstone; the second client is forgotten, and its
retry runs again within the grace. -/
theorem forgotten_request_reruns :
    let state := applyAll singleTombstone ⟨0, 2⟩ ⟨.new .default, .empty, none⟩ idleHistory
    let now := singleTombstone.sessionIdleNs + 1
    let retry := incrementOf 2 [98] 4 now
    singleTombstone.validate = .ok () ∧
    ((idleHistory.map Prod.snd ++ [retry]).map Proposal.leaderTime).Pairwise (· ≤ ·) ∧
    state.memory.map (fun record => (record.maxSeq, record.lastActive)) = some (1, 0) ∧
    now < 0 + singleTombstone.sessionIdleNs + singleTombstone.sessionRetryGraceNs ∧
    state.kv.store.get [98] = some [49] ∧
    (applyProposal singleTombstone none state.kv state.sessions retry).1.store.get [98] = some [50] := by
  intro state now retry
  refine ⟨by decide, by decide, by decide +kernel, by decide, by decide +kernel, ?_⟩
  have swept : state.sessions = _ := idleHistory_sessions
  rw [swept]
  decide +kernel

end CrashCourse.Cluster
