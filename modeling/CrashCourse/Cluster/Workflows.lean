import CrashCourse.Cluster.Prepare

/-!
Operator requests behind the retry state: `apply_admin` runs the mutation of an
entry only if the session lets it through.
-/

namespace CrashCourse.Cluster
open CrashCourse.Core CrashCourse.KeyValue CrashCourse.Raft

namespace SessionTable
variable {table : SessionTable} {context : AdminApplyContext} {raft : RaftNode}
  {mutate : RaftNode → RaftNode × Except RaftError (AdminReply × List RaftEffect)}

def resting (table : SessionTable) (key : SessionKey) (at_ : Nat) : Bool :=
  table.tombstones[key]?.any fun tombstone => decide (tombstone.expiresAt > at_)

/-- The session is not resting, not idle for too long, and has not seen the sequence. -/
def letsThrough (table : SessionTable) (policy : ClusterPolicy) (key : SessionKey) (sequence at_ : Nat) :
    Bool :=
  !table.resting key at_ &&
    match table.records[key]? with
    | none => true
    | some record =>
      decide (at_ - record.lastActive ≤ policy.sessionIdleNs) && decide (record.maxSeq < sequence)

theorem retainTombstones_contains (key : SessionKey) (at_ : Nat) :
    (table.retainTombstones at_).tombstones.contains key = table.resting key at_ := by
  rw [← Std.ExtTreeMap.isSome_getElem?_eq_contains]
  unfold retainTombstones resting
  simp only [Std.ExtTreeMap.getElem?_filter']
  cases table.tombstones[key]? with
  | none => rfl
  | some tombstone => by_cases live : tombstone.expiresAt > at_ <;> simp [live]

theorem applyAdmin_runs (through : table.letsThrough context.policy context.key context.sequence context.at_) :
    table.applyAdmin context mutate raft =
      (table.retainTombstones context.at_).runAdmin context mutate raft := by
  simp only [letsThrough, Bool.and_eq_true, Bool.not_eq_true'] at through
  rcases through with ⟨awake, fresh⟩
  simp only [applyAdmin, retainTombstones_contains, awake, Bool.false_eq_true, if_false]
  have records : (table.retainTombstones context.at_).records = table.records := rfl
  rw [records]
  cases held : table.records[context.key]? with
  | none => rfl
  | some record =>
    rw [held] at fresh
    simp only [Bool.and_eq_true, decide_eq_true_eq] at fresh
    simp only [if_neg (not_lt.mpr fresh.1), if_neg fresh.2.le.not_gt, if_neg fresh.2.ne']

theorem applyAdmin_resting (resting : table.resting context.key context.at_) : table.applyAdmin context mutate raft =
      (table.retainTombstones context.at_, raft,
        .ok (⟨context.operationTag, .requestExpired, context.sourceIndex, detailText "retry-grace"⟩, [])) := by
  simp only [applyAdmin, retainTombstones_contains, resting, if_true]

theorem effects_of_ok {reply : AdminReply} : ∀ other effects,
    (.ok (reply, []) : Except RaftError (AdminReply × List RaftEffect)) = .ok (other, effects) →
      effects = [] := by
  rintro _ _ ⟨⟩
  rfl

theorem applyAdmin_declines
    (declined : table.letsThrough context.policy context.key context.sequence context.at_ = false) :
    (table.applyAdmin context mutate raft).2.1 = raft ∧
      ∀ reply effects, (table.applyAdmin context mutate raft).2.2 = .ok (reply, effects) → effects = [] := by
  simp only [applyAdmin, retainTombstones_contains]
  by_cases awake : table.resting context.key context.at_ = false
  · simp only [letsThrough, awake, Bool.not_false, Bool.true_and] at declined
    simp only [awake, Bool.false_eq_true, if_false]
    have records : (table.retainTombstones context.at_).records = table.records := rfl
    rw [records]
    cases held : table.records[context.key]? with
    | none => simp [held] at declined
    | some record =>
      rw [held] at declined
      dsimp only
      split_ifs with idle stale same agree
      · exact ⟨rfl, effects_of_ok⟩
      · exact ⟨rfl, effects_of_ok⟩
      · cases AdminReply.decode record.cachedReply with
        | ok cached => exact ⟨rfl, effects_of_ok⟩
        | error error => exact ⟨rfl, by rintro _ _ ⟨⟩⟩
      · exact ⟨rfl, effects_of_ok⟩
      · simp only [Bool.and_eq_false_iff, decide_eq_false_iff_not] at declined
        omega
  · simp only [Bool.not_eq_false] at awake
    rw [if_pos awake]
    exact ⟨rfl, effects_of_ok⟩

theorem runAdmin_ok {left : SessionTable} {after : RaftNode} {reply : AdminReply} {effects : List RaftEffect}
    (done : table.runAdmin context mutate raft = (left, after, .ok (reply, effects))) :
    mutate raft = (after, .ok (reply, effects)) := by
  unfold runAdmin at done
  dsimp only at done
  split at done
  · cases done
  split at done
  · cases done
  next ran =>
    split at done
    · cases done
    · cases done
      exact ran

end SessionTable

section Carrying
variable {policy : ClusterPolicy} {working : Working} {entry : Entry} {envelope : ConfigEnvelope}
  {carried : Carried}

def Working.marked (working : Working) (entry : Entry) (envelope : ConfigEnvelope) : Working :=
  { working with kv := working.kv.markApplied entry.index entry.term envelope.leaderTime }

variable {raft : RaftNode} {operationTag replyTag : UInt8} {intentIndex : Nat} {result : TransferResult}
  {transfer : LeadershipTransfer}

theorem raftStep_ok {attempt : RaftNode × Except RaftError (List RaftEffect)} {effects : List RaftEffect} :
    raftStep attempt = .ok (raft, effects) ↔ attempt = (raft, .ok effects) := by
  rcases attempt with ⟨after, error | found⟩
  · exact ⟨nofun, nofun⟩
  constructor
  · rintro ⟨⟩
    rfl
  · rintro ⟨⟩
    rfl

def adminMutation (entry : Entry) (replyTag : UInt8) (result : AdminResultTag) (raft : RaftNode) :
    RaftNode × Except RaftError (AdminReply × List RaftEffect) :=
  match raft.applyCommittedConfig entry with
  | (raft, .ok effects) => (raft, .ok (AdminReply.mk replyTag result entry.index [], effects))
  | (raft, .error error) => (raft, .error error)

theorem carryAdmin_ok {session : SessionKey × Nat} {original : Bytes} {result : AdminResultTag}
    (done : carryAdmin policy working entry envelope session original operationTag replyTag result = .ok carried) :
    ∃ reply effects, working.sessions.applyAdmin
        ⟨policy, session.1, session.2, original, operationTag, entry.index, envelope.leaderTime⟩
        (adminMutation entry replyTag result) working.raft =
          (carried.next.sessions, carried.next.raft, .ok (reply, effects)) ∧
      carried.adminReply = some (session.1, reply) ∧ carried.next.kv = working.kv := by
  unfold carryAdmin at done
  dsimp only at done
  split at done
  · cases done
  next sessions raft reply effects answered =>
    cases done
    exact ⟨reply, effects, answered, rfl, rfl⟩

theorem carryAdmin_of {session : SessionKey × Nat} {original : Bytes} {result : AdminResultTag}
    {sessions : SessionTable} {reply : AdminReply} {effects : List RaftEffect}
    (answered : working.sessions.applyAdmin
      ⟨policy, session.1, session.2, original, operationTag, entry.index, envelope.leaderTime⟩
      (adminMutation entry replyTag result) working.raft = (sessions, raft, .ok (reply, effects))) :
    carryAdmin policy working entry envelope session original operationTag replyTag result =
      .ok { next := { working with sessions, raft }
            kind := .config
            canonicalCommand := entry.payload
            cachedReply := reply.encode
            clientReply := none
            adminReply := some (session.1, reply)
            postEffects := effects } := by
  unfold carryAdmin
  dsimp only
  split
  next failed => cases failed.symm.trans answered
  next found =>
    cases found.symm.trans answered
    rfl

theorem carryConfig_finish (decoded : ConfigEnvelope.decode entry.payload = .ok envelope)
    (finish : envelope.operation = .finishLeaderTransfer intentIndex result)
    (done : carryConfig policy working entry = .ok carried) : (envelope.adminSession = none ∧ ∃ effects,
      working.raft.applyCommittedConfig entry = (carried.next.raft, .ok effects)) ∨
    (∃ session original tag, envelope.adminSession = some session ∧
      carryAdmin policy (working.marked entry envelope) entry envelope session original tag 6
        (transferResultTag result) = .ok carried) := by
  rcases envelope with ⟨adminSession, leaderTime, operation⟩
  subst finish
  unfold carryConfig at done
  rw [decoded] at done
  simp only [bind, Except.bind, pure, Except.pure] at done
  split at done
  · cases done
  cases adminSession with
  | none =>
    left
    refine ⟨rfl, ?_⟩
    simp only at done
    split at done
    · cases done
    next step stepped =>
      rcases step with ⟨raft, effects⟩
      cases done
      exact ⟨effects, raftStep_ok.mp stepped⟩
  | some session =>
    right
    simp only at done
    split at done
    next original found =>
      split at done
      next transfer active => exact ⟨session, original, _, rfl, done⟩
      · cases done
    · cases done

theorem applyCommittedConfig_finish (config : entry.kind.isConfig)
    (decoded : ConfigEnvelope.decode entry.payload = .ok envelope)
    (finish : envelope.operation = .finishLeaderTransfer intentIndex result) (active : raft.transfer = some transfer)
    (same : transfer.intentIndex = intentIndex) :
    raft.applyCommittedConfig entry = ({ raft with transfer := none }, .ok []) := by
  have known : entry.envelope? = some envelope := by simp [Entry.envelope?, decoded, Except.toOption]
  unfold RaftNode.applyCommittedConfig
  simp [config, known, finish, active, same]

/-- A carried `FinishLeaderTransfer` of the active transfer ends it exactly if its
session lets it through. -/
theorem carryConfig_ends_iff (config : entry.kind.isConfig)
    (decoded : ConfigEnvelope.decode entry.payload = .ok envelope)
    (finish : envelope.operation = .finishLeaderTransfer intentIndex result)
    (active : working.raft.transfer = some transfer) (same : transfer.intentIndex = intentIndex)
    (done : carryConfig policy working entry = .ok carried) :
    carried.next.raft.transfer = none ↔ ∀ session, envelope.adminSession = some session →
      working.sessions.letsThrough policy session.1 session.2 envelope.leaderTime := by
  have cleared := applyCommittedConfig_finish config decoded finish active same
  rcases carryConfig_finish decoded finish done with
    ⟨plain, effects, applied⟩ | ⟨session, original, tag, asked, carries⟩
  · rw [cleared] at applied
    have ended : carried.next.raft.transfer = none := by rw [← (Prod.mk.inj applied).1]
    exact ⟨fun _ session asked => by simp [plain] at asked, fun _ => ended⟩
  · rcases carryAdmin_ok carries with ⟨reply, effects, answered, -, -⟩
    change working.sessions.applyAdmin _ _ working.raft = _ at answered
    cases through : working.sessions.letsThrough policy session.1 session.2 envelope.leaderTime with
    | true =>
      rw [SessionTable.applyAdmin_runs through] at answered
      have ran := SessionTable.runAdmin_ok answered
      simp only [adminMutation, cleared, Prod.mk.injEq] at ran
      have ended : carried.next.raft.transfer = none := by rw [← ran.1]
      refine ⟨fun _ other known => ?_, fun _ => ended⟩
      rw [asked] at known
      cases known
      exact through
    | false =>
      have kept : (working.sessions.applyAdmin
          ⟨policy, session.1, session.2, original, tag, entry.index, envelope.leaderTime⟩
          (adminMutation entry 6 (transferResultTag result)) working.raft).2.1 = working.raft :=
        (SessionTable.applyAdmin_declines through).1
      rw [answered] at kept
      have still : carried.next.raft.transfer = some transfer := by
        rw [show carried.next.raft = working.raft from kept, active]
      rw [still]
      constructor
      · nofun
      · intro all
        exact absurd (all session asked) (by simp [through])

end Carrying

theorem prepare_single {policy : ClusterPolicy} {routes left : ReplyRoutes} {working : Working} {entry : Entry}
    {prepared : PreparedCommittedEntry}
    (applied : prepareCommittedEntries policy routes working [entry] = (left, .ok [prepared])) :
    ∃ carried, carryEntry policy working entry = .ok carried ∧ prepared.next.raft = carried.next.raft ∧
      prepared.next.sessions = carried.next.sessions := by
  obtain ⟨carried, first, others, carries, sealed, -, same⟩ := prepareCommittedEntries_cons applied
  obtain rfl := (List.cons.inj same).1
  obtain ⟨-, walFrame, kv, -, rfl⟩ := sealEntry_ok_iff.mp sealed
  exact ⟨carried, carries, rfl, rfl⟩

/-- After a committed `FinishLeaderTransfer` of the active transfer no transfer is
active, exactly if the request that opened it has no session or its session lets the
entry through at its leader time. -/
theorem transfer_ends_iff {policy : ClusterPolicy} {routes left : ReplyRoutes} {working : Working}
    {entry : Entry} {envelope : ConfigEnvelope} {prepared : PreparedCommittedEntry} {intentIndex : Nat}
    {result : TransferResult} {transfer : LeadershipTransfer} (config : entry.kind.isConfig)
    (decoded : ConfigEnvelope.decode entry.payload = .ok envelope)
    (finish : envelope.operation = .finishLeaderTransfer intentIndex result)
    (active : working.raft.transfer = some transfer) (same : transfer.intentIndex = intentIndex)
    (applied : prepareCommittedEntries policy routes working [entry] = (left, .ok [prepared])) :
    prepared.next.raft.transfer = none ↔ ∀ session, envelope.adminSession = some session →
      working.sessions.letsThrough policy session.1 session.2 envelope.leaderTime := by
  rcases prepare_single applied with ⟨carried, done, raft, -⟩
  have carries : carryConfig policy working entry = .ok carried := by
    unfold carryEntry at done
    cases kind : entry.kind <;> simp_all [EntryKind.isConfig]
  rw [raft]
  exact carryConfig_ends_iff config decoded finish active same carries

def operator : SessionKey := ⟨SessionNamespace.adminRequest.code, 7⟩

def adminEntry (index : Nat) (envelope : ConfigEnvelope) : Entry := ⟨1, index, .config, envelope.encode⟩

def finishEnvelope (session : Option (SessionKey × Nat)) (leaderTime : Nat) : ConfigEnvelope where
  adminSession := session
  leaderTime := leaderTime
  operation := .finishLeaderTransfer 2 .timeout

/-- An operator adds a learner and later asks for a transfer, which times out when the
session is idle. -/
def lateLog : List Entry := [
  adminEntry 1
    { adminSession := some (operator, 1), leaderTime := 1, operation := .addLearner 9 none },
  adminEntry 2
    { adminSession := some (operator, 2), leaderTime := 2, operation := .beginLeaderTransfer 2 },
  adminEntry 3 (finishEnvelope (some (operator, 2)) (2 + ClusterPolicy.default.sessionIdleNs))]

def lateReplica : Working where
  kv := .new .default
  sessions := .empty
  raft :=
    { RaftNode.new 3 (Std.ExtTreeSet.ofList [1, 2, 3] compare) 3 .default with
      log := lateLog
      learners := (∅ : BTreeSet NodeId).insert 9
      commitIndex := 3
      appliedIndex := 3 }

/-- The operator's session has been active at time 1. -/
def openReplica : Working :=
  { lateReplica with
    sessions := { lateReplica.sessions with records := (∅ : BTreeMap ..).insert operator ⟨1, [1], [2], 1⟩ }
    raft :=
      { lateReplica.raft with
        transfer := some ⟨2, 2, 2 + RaftConfig.default.leaderTransferTimeout, false, some (operator, 2)⟩ } }

theorem transfer_ends_iff_open : ∃ left prepared,
      prepareCommittedEntries .default ⟨∅, ∅⟩ openReplica [adminEntry 3 (finishEnvelope (some (operator, 2)) 20)] =
        (left, .ok [prepared]) ∧ prepared.next.raft.transfer = none := by
  have count : ((prepareCommittedEntries .default ⟨∅, ∅⟩ openReplica
      [adminEntry 3 (finishEnvelope (some (operator, 2)) 20)]).2.toOption.map List.length) = some 1 := by
    decide +kernel
  rcases applied : prepareCommittedEntries .default ⟨∅, ∅⟩ openReplica
    [adminEntry 3 (finishEnvelope (some (operator, 2)) 20)] with ⟨left, halt | _ | ⟨prepared, _ | ⟨next, rest⟩⟩⟩
  · rw [applied] at count
    cases count
  · rw [applied] at count
    cases count
  · have decoded : ConfigEnvelope.decode (adminEntry 3 (finishEnvelope (some (operator, 2)) 20)).payload =
        .ok (finishEnvelope (some (operator, 2)) 20) := by decide +kernel
    refine ⟨left, prepared, rfl, (transfer_ends_iff rfl decoded rfl rfl rfl applied).mpr fun session opened => ?_⟩
    obtain rfl := Option.some.inj opened
    decide +kernel
  · rw [applied] at count
    cases count

/-- The log applies without an error, and the transfer is still active after its end. -/
theorem transfer_outlives_finish :
    ((prepareCommittedEntries .default ⟨∅, ∅⟩ lateReplica lateLog).2.toOption.map fun prepared =>
      prepared.map fun entry => entry.next.raft.transfer.isSome) = some [false, true, true] := by
  decide +kernel

end CrashCourse.Cluster
