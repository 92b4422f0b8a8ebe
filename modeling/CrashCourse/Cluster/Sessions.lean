import CrashCourse.Cluster.Envelope
import CrashCourse.KeyValue.Decode
import CrashCourse.KeyValue.State

/-!
The replicated retry state: one record per client, and a tombstone for one that was idle
for too long.
-/

namespace CrashCourse.Cluster
open CrashCourse.Core CrashCourse.KeyValue

instance : Ord SessionKey := ⟨compareOn fun key => (key.namespaceCode, key.client)⟩

instance : Std.TransOrd SessionKey :=
  inferInstanceAs (Std.TransCmp (compareOn fun key : SessionKey => (key.namespaceCode, key.client)))

instance : Std.LawfulEqOrd SessionKey where
  eq_of_compare {left right} same := by
    have parts : (left.namespaceCode, left.client) = (right.namespaceCode, right.client) :=
      Std.LawfulEqOrd.eq_of_compare same
    obtain ⟨code, client⟩ := Prod.mk.inj parts
    cases left
    cases right
    exact (SessionKey.mk.injEq ..).mpr ⟨code, client⟩

structure SessionRecord where
  maxSeq : Nat
  canonicalCommand : Bytes
  cachedReply : Bytes
  lastActive : Nat
  deriving DecidableEq

structure SessionTombstone where
  maxSeq : Nat
  expiresAt : Nat
  deriving DecidableEq

structure SessionTable where
  records : BTreeMap SessionKey SessionRecord
  tombstones : BTreeMap SessionKey SessionTombstone
  deriving DecidableEq

structure SessionReservation where
  bytes : Nat
  newSession : Bool
  deriving DecidableEq

def SessionRecord.bytes (record : SessionRecord) : Nat :=
  record.canonicalCommand.length + record.cachedReply.length

namespace SessionTable

def empty : SessionTable := ⟨∅, ∅⟩

def encodedBytes (table : SessionTable) : Nat :=
  table.records.toList.foldl (fun total entry => saturatingAdd total entry.2.bytes) 0

def existingBytes (table : SessionTable) (key : SessionKey) : Nat :=
  (table.records[key]?.map SessionRecord.bytes).getD 0

def reservationFor (table : SessionTable) (policy : ClusterPolicy) (key : SessionKey) (sequence : Nat)
    (canonicalCommand : Bytes) : Except KvError SessionReservation :=
  if sequence = 0 then .error .invalidInput
  else if table.tombstones[key]?.any fun tombstone => decide (sequence ≤ tombstone.maxSeq) then
    .ok ⟨0, false⟩
  else if table.records[key]?.any fun record => decide (sequence ≤ record.maxSeq) then .ok ⟨0, false⟩
  else
    let bytes := canonicalCommand.length + policy.maxReplyBytes
    if bytes > u64Max then .error .busy
    else .ok ⟨bytes - min (table.existingBytes key) bytes, !table.records.contains key⟩

/-- When each record becomes idle and each tombstone ends; `true` marks a tombstone. -/
def deadlines (table : SessionTable) (policy : ClusterPolicy) (pinned : Option SessionKey) :
    List (Nat × SessionKey × Bool) :=
  ((table.records.toList.filter fun entry => some entry.1 != pinned).map fun entry =>
      (saturatingAdd entry.2.lastActive policy.sessionIdleNs, entry.1, false)) ++
    ((table.tombstones.toList.filter fun entry => some entry.1 != pinned).map fun entry =>
      (entry.2.expiresAt, entry.1, true))

def firstExpiry (table : SessionTable) (policy : ClusterPolicy) (pinned : Option SessionKey) :
    Option (Nat × SessionKey) :=
  ((table.deadlines policy pinned).mergeSort fun left right => (compare left right).isLE).head?.map
    fun entry => (entry.1, entry.2.1)

def expireOne (policy : ClusterPolicy) (upTo : Nat) (table : SessionTable)
    (entry : Nat × SessionKey × Bool) : SessionTable :=
  let (idleDeadline, key, tombstone) := entry
  if tombstone then { table with tombstones := table.tombstones.erase key }
  else match table.records[key]? with
    | none => table
    | some record =>
      let table := { table with records := table.records.erase key }
      let graceEnd := saturatingAdd idleDeadline policy.sessionRetryGraceNs
      if graceEnd > upTo ∧ table.tombstones.size < policy.maxSessionTombstones then
        { table with tombstones := table.tombstones.insert key ⟨record.maxSeq, graceEnd⟩ }
      else table

def dueEntries (table : SessionTable) (policy : ClusterPolicy) (upTo maxItems : Nat)
    (pinned : Option SessionKey) : List (Nat × SessionKey × Bool) :=
  (((table.deadlines policy pinned).filter fun entry => decide (entry.1 ≤ upTo)).mergeSort
    fun left right => (compare left right).isLE).take maxItems

def expireDue (table : SessionTable) (policy : ClusterPolicy) (upTo maxItems : Nat)
    (pinned : Option SessionKey) : SessionTable :=
  (table.dueEntries policy upTo maxItems pinned).foldl (expireOne policy upTo) table

def retainTombstones (table : SessionTable) (at_ : Nat) : SessionTable :=
  { table with tombstones := table.tombstones.filter fun _ tombstone => decide (tombstone.expiresAt > at_) }

def touch (table : SessionTable) (key : SessionKey) (record : SessionRecord) (at_ : Nat) : SessionTable :=
  { table with records := table.records.insert key { record with lastActive := at_ } }

/-- The part of `apply_user` behind the checks of the retry state: the mutation runs on `state`. -/
def runUser {σ : Type} (table : SessionTable) (policy : ClusterPolicy) (key : SessionKey)
    (sequence : Nat) (canonicalCommand : Bytes) (at_ : Nat) (mutate : σ → σ × Outcome KvReply)
    (state : σ) : SessionTable × σ × Outcome KvReply :=
  let existing := table.existingBytes key
  if !table.records.contains key ∧ table.records.size ≥ policy.maxSessions then
    (table, state, .done (.op (.error .busy)))
  else if saturatingAdd (saturatingAdd (table.encodedBytes - existing) canonicalCommand.length)
      policy.maxReplyBytes > policy.maxSessionBytes then
    (table, state, .done (.op (.error .busy)))
  else
    match mutate state with
    | (state, .done reply) =>
      let cachedReply := encodeReply reply
      if saturatingAdd (table.encodedBytes - existing) (canonicalCommand.length + cachedReply.length) >
          policy.maxSessionBytes then
        (table, state, .done (.op (.error .busy)))
      else
        ({ table with
            records := table.records.insert key ⟨sequence, canonicalCommand, cachedReply, at_⟩ },
          state, .done reply)
    | (state, outcome) => (table, state, outcome)

def applyUser {σ : Type} (table : SessionTable) (policy : ClusterPolicy) (key : SessionKey)
    (sequence : Nat) (canonicalCommand : Bytes) (at_ : Nat) (mutate : σ → σ × Outcome KvReply)
    (state : σ) : SessionTable × σ × Outcome KvReply :=
  if sequence = 0 then
    let (state, outcome) := mutate state
    (table, state, outcome)
  else
    let table := table.retainTombstones at_
    if table.tombstones.contains key then (table, state, .done (.op (.error .sessionExpired)))
    else match table.records[key]? with
      | none => table.runUser policy key sequence canonicalCommand at_ mutate state
      | some record =>
        if at_ - record.lastActive > policy.sessionIdleNs then
          if table.tombstones.size ≥ policy.maxSessionTombstones then
            (table, state, .done (.op (.error .tooLarge)))
          else
            ({ records := table.records.erase key
               tombstones := table.tombstones.insert key
                ⟨record.maxSeq, saturatingAdd at_ policy.sessionRetryGraceNs⟩ },
              state, .done (.op (.error .sessionExpired)))
        else if sequence < record.maxSeq then (table, state, .done (.op (.error .staleSequence)))
        else if sequence = record.maxSeq then
          (table.touch key record at_, state,
            if record.canonicalCommand = canonicalCommand then
              match decodeReply record.cachedReply with
              | .ok reply => .done reply
              | .error _ => .done (.op (.error .invalidInput))
            else .done (.op (.error .sequenceConflict)))
        else table.runUser policy key sequence canonicalCommand at_ mutate state

end SessionTable

def batchLimits (policy : ClusterPolicy) : BatchLimits where
  maxCommands := policy.maxBatchCommands
  maxBytes := policy.maxBatchBytes
  maxReplyBytes := policy.maxBatchReplyBytes
  maxExpiryItems := policy.maxKeysPerExpirySweep

structure Proposal where
  index : Nat
  term : Nat
  session : Option (SessionKey × Nat)
  leaderTime : Nat
  command : KvCommand
  canonical : Bytes
  deriving DecidableEq

/-- The part of `prepare_committed_entries` that runs a client command. -/
def applyProposal (policy : ClusterPolicy) (pinned : Option SessionKey) (kv : Kv)
    (sessions : SessionTable) (entry : Proposal) : Kv × SessionTable × Outcome KvReply :=
  let mutate := fun kv : Kv => kv.applyCommandOnlyWithBatchLimits entry.index entry.term entry.command
    entry.leaderTime (batchLimits policy)
  let (sessions, kv, outcome) := match entry.session with
    | some (key, sequence) =>
      sessions.applyUser policy key sequence entry.canonical entry.leaderTime mutate kv
    | none =>
      let (kv, outcome) := mutate kv
      (sessions, kv, outcome)
  let sessions := match entry.command with
    | .op (.expireSessions upTo) => sessions.expireDue policy upTo policy.maxKeysPerExpirySweep pinned
    | _ => sessions
  let kv := if kv.appliedIndex < entry.index then
      kv.markApplied entry.index entry.term entry.leaderTime
    else kv
  (kv, sessions, outcome)

end CrashCourse.Cluster
