import CrashCourse.Cluster.Snapshot
import CrashCourse.KeyValue.Sweeps

/-!
The index of deadlines in every state that a state machine comes to, restored ones
included.
-/

namespace CrashCourse.KeyValue
open CrashCourse.Core CrashCourse.Cluster

variable {ttl ttl' : BTreeMap Bytes Nat} {entries : List LogicalKvEntry} {key : Bytes} {deadline : Nat}

def deadlinesOf (ttl : BTreeMap Bytes Nat) : BTreeSet (Nat × Bytes) :=
  Std.ExtTreeSet.ofList (ttl.toList.map fun entry => (entry.2, entry.1)) compare

theorem contains_deadlinesOf : (deadlinesOf ttl).contains (deadline, key) ↔ ttl[key]? = some deadline := by
  rw [deadlinesOf, Std.ExtTreeSet.contains_ofList, List.contains_iff_mem, List.mem_map,
    ← Std.ExtTreeMap.mem_toList_iff_getElem?_eq_some]
  constructor
  · rintro ⟨⟨held, time⟩, member, same⟩
    obtain ⟨rfl, rfl⟩ := Prod.mk.inj same
    exact member
  · exact fun member => ⟨(key, deadline), member, rfl⟩

def restoreDeadlines (time : Nat) : List LogicalKvEntry → BTreeMap Bytes Nat →
    Except KvError (BTreeMap Bytes Nat)
  | [], ttl => .ok ttl
  | entry :: rest, ttl =>
    match entry.deadline with
    | none => restoreDeadlines time rest ttl
    | some deadline =>
      if deadline ≤ time || ttl.contains entry.key then .error .invalidInput
      else restoreDeadlines time rest (ttl.insert entry.key deadline)

/-- The loop of `Store::from_logical`: the keys ascend, and the configuration's limits
hold. -/
def fromLogical (config : StoreConfig) (sequence : Nat) : Option Bytes → List LogicalKvEntry →
    BTreeMap Bytes (Nat × Bytes) → Except StoreError (BTreeMap Bytes (Nat × Bytes))
  | _, [], live => .ok live
  | previous, entry :: rest, live =>
    if entry.key.isEmpty || decide (entry.key.length > config.maxKeyBytes) ||
        decide (entry.value.length > config.maxValueBytes) || entry.sequence == 0 ||
        decide (entry.sequence > sequence) || previous.any fun key => (compare key entry.key).isGE then
      .error (.invalidInput "logical checkpoint entry")
    else fromLogical config sequence (some entry.key) rest
      (live.insert entry.key (entry.sequence, entry.value))

theorem restoreDeadlines_key {time : Nat} (done : restoreDeadlines time entries ttl = .ok ttl')
    (held : ttl'.contains key) : ttl.contains key ∨ ∃ entry ∈ entries, entry.key = key := by
  induction entries generalizing ttl with
  | nil => exact .inl (Except.ok.inj done ▸ held)
  | cons entry rest ih =>
    rw [restoreDeadlines] at done
    split at done
    · exact (ih done).imp_right fun ⟨later, member, same⟩ => ⟨later, .tail _ member, same⟩
    split at done
    · cases done
    rcases ih done with early | ⟨later, member, same⟩
    · rw [Std.ExtTreeMap.contains_insert, Bool.or_eq_true] at early
      exact early.symm.imp_right fun same => ⟨entry, .head _, by simpa using same⟩
    · exact .inr ⟨later, .tail _ member, same⟩

theorem fromLogical_key {config : StoreConfig} {sequence : Nat} {previous : Option Bytes}
    {live live' : BTreeMap Bytes (Nat × Bytes)} (done : fromLogical config sequence previous entries live = .ok live')
    (held : live.contains key ∨ ∃ entry ∈ entries, entry.key = key) : live'.contains key := by
  induction entries generalizing previous live with
  | nil => simpa [← Except.ok.inj done] using held
  | cons entry rest ih =>
    rw [fromLogical] at done
    split at done
    · cases done
    refine ih done ?_
    rw [Std.ExtTreeMap.contains_insert, Bool.or_eq_true]
    rcases held with early | ⟨later, member, same⟩
    · exact .inl (.inr early)
    rcases List.mem_cons.mp member with rfl | member
    · exact .inl (.inl (by simp [same]))
    · exact .inr ⟨later, member, same⟩

namespace Kv
variable {kv next : Kv} {upTo items : Nat}

/-- A configuration that `Wal::new` refuses is left out. -/
def restoreLogical (snapshot : LogicalKvSnapshot) (config : StoreConfig) : Except KvError Kv :=
  match dated : restoreDeadlines snapshot.lastLeaderTime snapshot.entries ∅ with
  | .error error => .error error
  | .ok ttl =>
    if snapshot.appliedIndex ≠ 0 ∧ snapshot.appliedTerm = 0 then
      .error (.store (.invalidInput "logical checkpoint watermark"))
    else
      match loaded : fromLogical config snapshot.storeSequence none snapshot.entries ∅ with
      | .error error => .error (.store error)
      | .ok live =>
        .ok
          { store :=
              { config, live
                nextSequence := snapshot.storeSequence
                metadata := ∅
                appliedWatermark := if snapshot.appliedIndex = 0 then none else
                  some ⟨snapshot.appliedIndex, snapshot.appliedTerm, snapshot.lastLeaderTime⟩ }
            sessions := ∅
            ttl
            deadlines := deadlinesOf ttl
            appliedIndex := snapshot.appliedIndex
            appliedTerm := snapshot.appliedTerm
            lastLeaderTime := snapshot.lastLeaderTime
            indexed := fun _ _ => contains_deadlinesOf
            stored := fun key held => fromLogical_key loaded ((restoreDeadlines_key dated held).imp_left (by simp)) }

theorem indexed_deadlinesOf (kv : Kv) (deadline : Nat) (key : Bytes) :
    (deadlinesOf kv.ttl).contains (deadline, key) ↔ kv.ttl[key]? = some deadline := contains_deadlinesOf

/-- `restore` of a `snapshot`, which copies every field but the index; the store's
checkpoint has its keys in tables. -/
def restore (snapshot : Kv) (config : StoreConfig) : Kv :=
  { snapshot with
    store := { snapshot.store with config, metadata := ∅ }
    deadlines := deadlinesOf snapshot.ttl
    indexed := snapshot.indexed_deadlinesOf
    stored := snapshot.stored }

/-- The calls that make one state from another; a refused restore leaves the old one. -/
inductive Call where
  | apply (index term : Nat) (client : ClientId) (sequence : Nat) (command : KvCommand) (leaderTime : Nat)
  | applyCommandOnly (index term : Nat) (command : KvCommand) (leaderTime : Nat) (limits : BatchLimits)
  | markApplied (index term leaderTime : Nat)
  | restoreLogical (snapshot : LogicalKvSnapshot) (config : StoreConfig)
  | restore (config : StoreConfig)

def call (kv : Kv) : Call → Kv
  | .apply index term client sequence command leaderTime =>
    (kv.apply index term client sequence command leaderTime).1
  | .applyCommandOnly index term command leaderTime limits =>
    (kv.applyCommandOnlyWithBatchLimits index term command leaderTime limits).1
  | .markApplied index term leaderTime => kv.markApplied index term leaderTime
  | .restoreLogical snapshot config => (restoreLogical snapshot config).toOption.getD kv
  | .restore config => kv.restore config

def deletes (kv : Kv) (key : Bytes) : Prop := kv.store.config.admits 0 key [] .delete = .ok ()

def purge (now upTo items : Nat) (kv : Kv) : Kv := (kv.applyOp now items (.purgeExpired upTo)).1

theorem purge_eq (now : Nat) : purge now upTo items kv = (kv.purgeKeys (kv.expiredKeys upTo items)).1 := by
  unfold purge applyOp
  dsimp only
  split <;> next done => rw [done]

theorem purgeKeys_ttl (kv : Kv) (keys : List Bytes) : (kv.purgeKeys keys).1.store.config = kv.store.config ∧
    (∀ key, (kv.purgeKeys keys).1.ttl[key]? = kv.ttl[key]? ∨
      (kv.purgeKeys keys).1.ttl[key]? = none ∧ kv.deletes key) ∧
    ((∀ key ∈ keys, kv.deletes key) → ∀ key ∈ keys, (kv.purgeKeys keys).1.ttl[key]? = none) := by
  induction keys generalizing kv with
  | nil => exact ⟨rfl, fun _ => .inl rfl, by simp⟩
  | cons first rest ih =>
    unfold purgeKeys
    rcases kv.discard_cases first with ⟨error, denied, refused⟩ | ⟨next, admitted, done, changes⟩
    · rw [refused]
      refine ⟨rfl, fun _ => .inl rfl, fun all => ?_⟩
      have gone := all first (.head _)
      rw [deletes, denied] at gone
      cases gone
    rw [done]
    obtain ⟨config, kept, cleared⟩ := ih next
    have lets (key : Bytes) : next.deletes key ↔ kv.deletes key := by rw [deletes, deletes, changes.config]
    have own : (next.purgeKeys rest).1.ttl[first]? = none := by
      rcases kept first with same | ⟨gone, -⟩
      · rw [same, changes.deadline, if_pos rfl]
      · exact gone
    refine ⟨config.trans changes.config, fun key => ?_, fun all key member => ?_⟩
    · by_cases here : first = key
      · exact .inr (here ▸ ⟨own, admitted⟩)
      · have apart := changes.deadline key
        rw [if_neg here] at apart
        rw [← apart, ← lets]
        exact kept key
    · rcases List.mem_cons.mp member with rfl | later
      · exact own
      · exact cleared (fun key member => (lets key).mpr (all key (.tail _ member))) key later

theorem firstDeadline_least (held : kv.ttl[key]? = some deadline) :
    ∃ first earliest, kv.firstDeadline = some (earliest, first) ∧ kv.ttl[first]? = some earliest ∧
      earliest ≤ deadline := by
  have listed : (deadline, key) ∈ kv.deadlines.toList := by
    rw [Std.ExtTreeSet.mem_toList, ← Std.ExtTreeSet.contains_iff_mem, kv.indexed, held]
  have sorted := kv.deadlines.ordered_toList
  have mine (entry : Nat × Bytes) (member : entry ∈ kv.deadlines.toList) : kv.ttl[entry.2]? = some entry.1 := by
    rwa [Std.ExtTreeSet.mem_toList, ← Std.ExtTreeSet.contains_iff_mem, kv.indexed] at member
  unfold firstDeadline
  cases all : kv.deadlines.toList with
  | nil => simp [all] at listed
  | cons entry rest =>
    rw [all] at listed sorted mine
    refine ⟨entry.2, entry.1, rfl, mine entry (.head _), ?_⟩
    rcases List.mem_cons.mp listed with rfl | later
    · exact le_rfl
    rcases Ordering.then_eq_lt.mp ((List.pairwise_cons.mp sorted).1 _ later) with less | ⟨same, -⟩
    · exact (Nat.compare_eq_lt.mp less).le
    · exact (Nat.compare_eq_eq.mp same).le

/-- Each purge takes the first deadline at least, so that every deadline has its turn. -/
theorem purges_reach {now : Nat} {candidates : List Bytes}
    (within : ∀ (key : Bytes) deadline, kv.ttl[key]? = some deadline → key ∈ candidates)
    (lets : ∀ (key : Bytes) deadline, kv.ttl[key]? = some deadline → kv.deletes key)
    (held : kv.ttl[key]? = some deadline) (due : deadline ≤ upTo) (positive : 0 < items) :
    ∃ count, ((purge now upTo items)^[count] kv).ttl[key]? = none := by
  induction left : candidates.length generalizing kv candidates with
  | zero => simp [List.length_eq_zero_iff.mp left] at within; simp [within] at held
  | succ left ih =>
    obtain ⟨first, earliest, head, own, least⟩ := firstDeadline_least held
    have listed : first ∈ kv.expiredKeys upTo items := by
      obtain ⟨items, rfl⟩ := Nat.exists_eq_succ_of_ne_zero positive.ne'
      unfold firstDeadline at head
      unfold expiredKeys
      cases all : kv.deadlines.toList with
      | nil => simp [all] at head
      | cons entry rest =>
        obtain rfl : entry = (earliest, first) := by simpa [all] using head
        simp [least.trans due]
    obtain ⟨config, kept, cleared⟩ := kv.purgeKeys_ttl (kv.expiredKeys upTo items)
    rw [← purge_eq now] at config kept cleared
    have gone := cleared (fun key member => by
      have expired := expired_of_mem_expiredKeys member
      cases dated : kv.ttl[key]? with
      | none => simp [Kv.expired, dated] at expired
      | some deadline => exact lets key deadline dated) first listed
    have still {key : Bytes} {deadline : Nat} (after : (purge now upTo items kv).ttl[key]? = .some deadline) :
        kv.ttl[key]? = .some deadline := by
      rcases kept key with same | ⟨none, -⟩
      · rw [← same, after]
      · simp [none] at after
    rcases kept key with same | ⟨none, -⟩
    · obtain ⟨count, ends⟩ := @ih (purge now upTo items kv) (candidates.erase first)
        (fun key deadline after => (List.mem_erase_of_ne fun here => by simp [here, gone] at after).mpr
          (within key deadline (still after)))
        (fun key deadline after => by rw [deletes, config]; exact lets key deadline (still after))
        (same.trans held) (by rw [List.length_erase_of_mem (within first earliest own), left]; rfl)
      exact ⟨count + 1, ends⟩
    · exact ⟨1, none⟩

/-- The index lists the deadlines of the keys in order, and only stored keys have one. -/
structure Consistent (kv : Kv) : Prop where
  indexed : ∀ deadline (key : Bytes), kv.deadlines.contains (deadline, key) ↔ kv.ttl[key]? = some deadline
  stored : ∀ (key : Bytes) deadline, kv.ttl[key]? = some deadline → (kv.store.get key).isSome
  first : ∀ (key : Bytes) deadline, kv.ttl[key]? = some deadline → ∃ first earliest,
    kv.firstDeadline = some (earliest, first) ∧ kv.ttl[first]? = some earliest ∧ earliest ≤ deadline

/-- Purges up to a deadline, however few keys each of them takes, end it at last. -/
def Purges (kv : Kv) : Prop :=
  ∀ (key : Bytes) deadline, kv.ttl[key]? = some deadline → ∀ now upTo items, deadline ≤ upTo → 0 < items →
    ∃ count, ((purge now upTo items)^[count] kv).ttl[key]? = none

theorem consistent (kv : Kv) : Consistent kv where
  indexed := kv.indexed
  stored key deadline held := by
    have live := kv.stored key (by rw [← Std.ExtTreeMap.isSome_getElem?_eq_contains, held]; rfl)
    rwa [Store.get, Option.isSome_map, Std.ExtTreeMap.isSome_getElem?_eq_contains]
  first _ _ := firstDeadline_least

theorem purge_refused {now : Nat} (denied : ¬ kv.deletes key) (count : Nat) :
    ((purge now upTo items)^[count] kv).ttl[key]? = kv.ttl[key]? := by
  induction count generalizing kv with
  | zero => rfl
  | succ count ih =>
    obtain ⟨config, kept, -⟩ := kv.purgeKeys_ttl (kv.expiredKeys upTo items)
    rw [← purge_eq now] at config kept
    rw [Function.iterate_succ_apply, ih (by rwa [deletes, config])]
    exact (kept key).resolve_right fun gone => denied gone.2

/-- The index is consistent in every state, and purging ends every deadline exactly if
the store lets go of every key with one. -/
theorem deadline_index_consistent (config : StoreConfig) (calls : List Call) :
    Consistent (calls.foldl call (.new config)) ∧
      (Purges (calls.foldl call (.new config)) ↔
        ∀ (key : Bytes) deadline, (calls.foldl call (.new config)).ttl[key]? = some deadline →
          (calls.foldl call (.new config)).deletes key) := by
  generalize calls.foldl call (.new config) = kv
  refine ⟨kv.consistent, ?_, ?_⟩
  · intro purges key deadline held
    by_contra denied
    obtain ⟨count, ends⟩ := purges key deadline held 0 deadline 1 le_rfl Nat.one_pos
    simp [purge_refused denied, held] at ends
  · intro lets key deadline held now upTo items due positive
    exact purges_reach (fun key deadline held => Std.ExtTreeMap.mem_keys.mpr
      (Std.ExtTreeMap.mem_iff_isSome_getElem?.mpr (by rw [held]; rfl))) lets held due positive

def tightConfig : StoreConfig := { StoreConfig.default with maxRecordSize := recordHeaderSize }

def datedSnapshot : LogicalKvSnapshot := ⟨[⟨[1], 1, [], some 5⟩], 1, 1, 1, 0⟩

/-- A restored key that the log has no room to delete keeps its deadline. -/
theorem restored_deadline_stays :
    ¬ Purges ([.restoreLogical datedSnapshot tightConfig].foldl call (new tightConfig)) := by
  intro purges
  obtain ⟨count, ends⟩ := purges [1] 5 (by decide +kernel) 0 5 1 le_rfl Nat.one_pos
  rw [purge_refused (by unfold deletes; decide +kernel)] at ends
  revert ends
  decide +kernel

end Kv
end CrashCourse.KeyValue
