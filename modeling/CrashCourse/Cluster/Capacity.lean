import CrashCourse.Cluster.Admin
import CrashCourse.Core.Totals

/-!
The quotas of the retry state, kept by every change of one key.
-/

namespace CrashCourse.Cluster
open CrashCourse.Core CrashCourse.KeyValue CrashCourse.Raft

namespace SessionTable
variable {σ : Type} {policy : ClusterPolicy} {table : SessionTable} {key : SessionKey} {record : SessionRecord} {at_ : Nat}

def storedBytes (table : SessionTable) : Nat := total (fun _ record => record.bytes) table.records

theorem encodedBytes_eq (table : SessionTable) : table.encodedBytes = min table.storedBytes u64Max := by
  have folded := foldl_saturatingAdd (fun entry : SessionKey × SessionRecord => entry.2.bytes) table.records.toList 0
  rwa [Nat.zero_add] at folded

structure Bounded (policy : ClusterPolicy) (table : SessionTable) : Prop where
  disjoint : ∀ key ∈ table.records, key ∉ table.tombstones
  records : table.records.size ≤ policy.maxSessions
  tombstones : table.tombstones.size ≤ policy.maxSessionTombstones
  encoded : table.encodedBytes ≤ policy.maxSessionBytes

theorem bounded_empty (policy : ClusterPolicy) : Bounded policy empty where
  disjoint _ held := absurd held Std.ExtTreeMap.not_mem_empty
  records := Nat.zero_le _
  tombstones := Nat.zero_le _
  encoded := Nat.zero_le _

namespace Bounded
variable (bounded : Bounded policy table)
include bounded

/-- The quota is a `u64` like the sum it is compared with; only `u64::MAX` cannot tell
a larger sum. -/
theorem stored (below : policy.maxSessionBytes < u64Max) : table.storedBytes ≤ policy.maxSessionBytes := by
  have encoded := bounded.encoded
  rw [encodedBytes_eq] at encoded
  omega

theorem clear {tombstones : BTreeMap SessionKey SessionTombstone}
    (part : ∀ key ∈ tombstones, key ∈ table.tombstones) (fewer : tombstones.size ≤ table.tombstones.size) :
    Bounded policy { table with tombstones } where
  disjoint key held kept := bounded.disjoint key held (part key kept)
  records := bounded.records
  tombstones := fewer.trans bounded.tombstones
  encoded := bounded.encoded

theorem retain (at_ : Nat) : Bounded policy (table.retainTombstones at_) :=
  bounded.clear (fun _ kept => Std.ExtTreeMap.mem_of_mem_filter kept) Std.ExtTreeMap.size_filter_le_size

theorem lift (key : SessionKey) : Bounded policy { table with tombstones := table.tombstones.erase key } :=
  bounded.clear (fun _ kept => Std.ExtTreeMap.mem_of_mem_erase kept) Std.ExtTreeMap.size_erase_le

theorem forget (key : SessionKey) : Bounded policy { table with records := table.records.erase key } where
  disjoint other held := bounded.disjoint other (Std.ExtTreeMap.mem_of_mem_erase held)
  records := Std.ExtTreeMap.size_erase_le.trans bounded.records
  tombstones := bounded.tombstones
  encoded := by
    have encoded := bounded.encoded
    rw [encodedBytes_eq] at encoded ⊢
    have less : total (fun _ record => SessionRecord.bytes record) (table.records.erase key) ≤ table.storedBytes :=
      total_erase_le ..
    change min (total _ (table.records.erase key)) _ ≤ _
    omega

theorem bury (tombstone : SessionTombstone) (gone : key ∉ table.records)
    (room : table.tombstones.size < policy.maxSessionTombstones) :
    Bounded policy { table with tombstones := table.tombstones.insert key tombstone } where
  disjoint other held kept := by
    rcases Std.ExtTreeMap.mem_insert.mp kept with same | kept
    · exact gone (Std.LawfulEqCmp.eq_of_compare same ▸ held)
    · exact bounded.disjoint other held kept
  records := bounded.records
  tombstones := Std.ExtTreeMap.size_insert_le.trans room
  encoded := bounded.encoded

theorem store (awake : key ∉ table.tombstones) (room : key ∈ table.records ∨ table.records.size < policy.maxSessions)
    (fits : saturatingAdd (table.encodedBytes - table.existingBytes key) record.bytes ≤ policy.maxSessionBytes) :
    Bounded policy { table with records := table.records.insert key record } where
  disjoint other held kept := by
    rcases Std.ExtTreeMap.mem_insert.mp held with same | held
    · exact awake (Std.LawfulEqCmp.eq_of_compare same ▸ kept)
    · exact bounded.disjoint other held kept
  records := by
    have records := bounded.records
    change (table.records.insert key record).size ≤ _
    rw [Std.ExtTreeMap.size_insert]
    split
    · exact records
    next fresh => exact (room.resolve_left fresh)
  tombstones := bounded.tombstones
  encoded := by
    have encoded := bounded.encoded
    rw [encodedBytes_eq] at encoded fits ⊢
    have inserted : total (fun _ record => SessionRecord.bytes record) (table.records.insert key record) =
        record.bytes + total (fun _ record => record.bytes) (table.records.erase key) := total_insert record
    have erased : table.storedBytes =
        table.existingBytes key + total (fun _ record => record.bytes) (table.records.erase key) := total_eq ..
    change min (total _ (table.records.insert key record)) _ ≤ _
    unfold saturatingAdd at fits
    omega

theorem touch (held : table.records[key]? = some record) : Bounded policy (table.touch key record at_) := by
  have known := Std.ExtTreeMap.mem_iff_isSome_getElem?.mpr (held ▸ rfl : table.records[key]?.isSome)
  apply bounded.store (bounded.disjoint key known) (.inl known)
  have encoded := bounded.encoded
  have whole : table.storedBytes = record.bytes + _ := total_erase held
  have same : ({ record with lastActive := at_ } : SessionRecord).bytes = record.bytes := rfl
  rw [same, existingBytes, held]
  rw [encodedBytes_eq] at encoded ⊢
  change saturatingAdd (_ - record.bytes) _ ≤ _
  unfold saturatingAdd
  omega

theorem expireOne (upTo : Nat) (entry : Nat × SessionKey × Bool) :
    Bounded policy (SessionTable.expireOne policy upTo table entry) := by
  obtain ⟨deadline, key, stone⟩ := entry
  unfold SessionTable.expireOne
  cases stone with
  | true => exact bounded.lift key
  | false =>
    have forgotten := bounded.forget key
    dsimp only
    rw [if_neg Bool.false_ne_true]
    split
    · exact bounded
    · split
      next room => exact forgotten.bury _ (by simp) room.2
      · exact forgotten

theorem expireDue (upTo maxItems : Nat) (pinned : Option SessionKey) :
    Bounded policy (table.expireDue policy upTo maxItems pinned) := by
  unfold SessionTable.expireDue
  generalize table.dueEntries policy upTo maxItems pinned = entries
  induction entries generalizing table with
  | nil => exact bounded
  | cons entry rest ih => exact ih (bounded.expireOne upTo entry)

theorem runUser (awake : key ∉ table.tombstones) (sequence : Nat) (canonicalCommand : Bytes) (at_ : Nat)
    (mutate : σ → σ × Outcome KvReply) (state : σ) :
    Bounded policy (table.runUser policy key sequence canonicalCommand at_ mutate state).1 := by
  unfold SessionTable.runUser
  dsimp only
  split
  · exact bounded
  next room =>
    split
    · exact bounded
    split
    · split
      · exact bounded
      next fits => exact bounded.store awake (by grind) (not_lt.mp fits)
    · exact bounded

theorem runAdmin (context : AdminApplyContext) (same : context.policy = policy) (awake : context.key ∉ table.tombstones)
    (mutate : RaftNode → RaftNode × Except RaftError (AdminReply × List RaftEffect)) (raft : RaftNode) :
    Bounded policy (table.runAdmin context mutate raft).1 := by
  subst same
  unfold SessionTable.runAdmin
  dsimp only
  split
  · exact bounded
  next room =>
    split
    · exact bounded
    · split
      · exact bounded
      next fits => exact bounded.store awake (by grind) (not_lt.mp fits)

theorem applyUser (key : SessionKey) (sequence : Nat) (canonicalCommand : Bytes) (at_ : Nat)
    (mutate : σ → σ × Outcome KvReply) (state : σ) :
    Bounded policy (table.applyUser policy key sequence canonicalCommand at_ mutate state).1 := by
  have kept := bounded.retain at_
  unfold SessionTable.applyUser
  dsimp only
  split
  · exact bounded
  split
  · exact kept
  next awake =>
    have awake := mt Std.ExtTreeMap.mem_iff_contains.mp awake
    split
    · exact kept.runUser awake ..
    next record held =>
      split_ifs with late full stale same agrees
      · exact kept
      · exact (kept.forget key).bury _ (by simp) (not_le.mp full)
      · exact kept
      · exact kept.touch held
      · exact kept.touch held
      · exact kept.runUser awake ..

theorem applyAdmin (context : AdminApplyContext) (same : context.policy = policy)
    (mutate : RaftNode → RaftNode × Except RaftError (AdminReply × List RaftEffect)) (raft : RaftNode) :
    Bounded policy (table.applyAdmin context mutate raft).1 := by
  have kept := bounded.retain context.at_
  unfold SessionTable.applyAdmin
  dsimp only
  split
  · exact kept
  next awake =>
    have awake := mt Std.ExtTreeMap.mem_iff_contains.mp awake
    split
    · exact kept.runAdmin context same awake ..
    next record held =>
      split_ifs with late stale seen agrees
      · exact kept
      · exact kept
      · split
        · exact kept.touch held
        · exact kept
      · exact kept.touch held
      · exact kept.runAdmin context same awake ..

end Bounded
inductive Call (σ : Type) where
  | applyUser (key : SessionKey) (sequence : Nat) (canonicalCommand : Bytes) (at_ : Nat)
    (mutate : σ → σ × Outcome KvReply) (state : σ)
  | applyAdmin (context : AdminApplyContext)
    (mutate : RaftNode → RaftNode × Except RaftError (AdminReply × List RaftEffect)) (raft : RaftNode)
  | expireDue (upTo maxItems : Nat) (pinned : Option SessionKey)

def call (policy : ClusterPolicy) (table : SessionTable) : Call σ → SessionTable
  | .applyUser key sequence canonicalCommand at_ mutate state =>
    (table.applyUser policy key sequence canonicalCommand at_ mutate state).1
  | .applyAdmin context mutate raft => (table.applyAdmin { context with policy } mutate raft).1
  | .expireDue upTo maxItems pinned => table.expireDue policy upTo maxItems pinned

theorem Bounded.call (bounded : Bounded policy table) (call : Call σ) : Bounded policy (table.call policy call) := by
  cases call with
  | applyUser => exact bounded.applyUser ..
  | applyAdmin => exact bounded.applyAdmin _ rfl ..
  | expireDue => exact bounded.expireDue ..

theorem Bounded.calls (bounded : Bounded policy table) (calls : List (Call σ)) :
    Bounded policy (calls.foldl (SessionTable.call policy) table) := by
  induction calls generalizing table with
  | nil => exact bounded
  | cons call rest ih => exact ih (bounded.call call)

/-- No sequence of calls takes the table over a quota of its policy. -/
theorem calls_keep_quotas {σ : Type} (policy : ClusterPolicy) (calls : List (Call σ)) :
    let table := calls.foldl (SessionTable.call policy) empty
    (∀ key ∈ table.records, key ∉ table.tombstones) ∧
      table.records.size ≤ policy.maxSessions ∧ table.tombstones.size ≤ policy.maxSessionTombstones ∧
      table.encodedBytes ≤ policy.maxSessionBytes ∧
      (policy.maxSessionBytes < u64Max → table.storedBytes ≤ policy.maxSessionBytes) := by
  have bounded := (bounded_empty policy).calls calls
  exact ⟨bounded.disjoint, bounded.records, bounded.tombstones, bounded.encoded, bounded.stored⟩

end SessionTable
end CrashCourse.Cluster
