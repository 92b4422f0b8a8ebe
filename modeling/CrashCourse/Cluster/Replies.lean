import CrashCourse.Cluster.Workflows

/-!
What the reply to an operator says and what the entry did. `preview_admin`, the append and
`apply_admin` judge the session on their own.
-/

namespace CrashCourse.Cluster
open CrashCourse.Core CrashCourse.KeyValue CrashCourse.Raft

def singleEntry : ConfigOperation → Bool
  | .addLearner .. | .removeLearner .. | .updateAddress .. | .activateFeature .. => true
  | _ => false

def kindOf : ConfigOperation → EntryKind
  | .activateFeature _ => .configV3
  | _ => .config

def refusesApply (raft : RaftNode) : ConfigOperation → Bool
  | .activateFeature feature =>
    feature != atomicBatchFeature || raft.activeFeatures &&& feature != 0
  | _ => false

namespace SessionTable
variable {table : SessionTable} {policy : ClusterPolicy} {key : SessionKey} {sequence at_ : Nat}
  {canonical : Bytes} {tag : UInt8}

def hasSeat (table : SessionTable) (policy : ClusterPolicy) (key : SessionKey) : Bool :=
  table.records.contains key || decide (table.records.size < policy.maxSessions)

def fitsReply (table : SessionTable) (policy : ClusterPolicy) (key : SessionKey) (canonical : Bytes)
    (reply : AdminReply) : Bool :=
  decide (saturatingAdd (table.encodedBytes - table.existingBytes key)
    (canonical.length + reply.encode.length) ≤ policy.maxSessionBytes)

/-- A preview that lets the request go on leaves one obstacle: a tombstone in force
that has seen lower sequences only. -/
theorem letsThrough_of_preview (previewed : table.previewAdmin policy key sequence canonical tag at_ = .ok none) :
    table.letsThrough policy key sequence at_ = !table.resting key at_ := by
  unfold previewAdmin at previewed
  split at previewed
  · cases previewed
  dsimp only at previewed
  split at previewed
  · cases previewed
  unfold letsThrough
  cases held : table.records[key]? with
  | none => exact Bool.and_true _
  | some record =>
    rw [held] at previewed
    dsimp only at previewed ⊢
    split_ifs at previewed with idle stale same agree
    · cases previewed
    · cases previewed
    · split at previewed <;> cases previewed
    · cases previewed
    · have active : at_ - record.lastActive ≤ policy.sessionIdleNs := not_lt.mp idle
      have newer : record.maxSeq < sequence := by omega
      simp [active, newer]

theorem runAdmin_answers_iff {context : AdminApplyContext} {raft after : RaftNode} {reply : AdminReply}
    {effects : List RaftEffect} {mutate : RaftNode → RaftNode × Except RaftError (AdminReply × List RaftEffect)}
    (ran : mutate raft = (after, .ok (reply, effects))) :
    (∃ left, table.runAdmin context mutate raft = (left, after, .ok (reply, effects))) ↔
      table.hasSeat context.policy context.key ∧
        table.fitsReply context.policy context.key context.canonicalCommand reply := by
  unfold runAdmin hasSeat fitsReply
  simp only [ran, Bool.or_eq_true, decide_eq_true_eq]
  split_ifs with full large
  · constructor
    · rintro ⟨left, ⟨⟩⟩
    · rintro ⟨seat, -⟩
      simp only [Bool.not_eq_true', ge_iff_le] at full
      rcases seat with held | room
      · simp [full.1] at held
      · omega
  · constructor
    · rintro ⟨left, ⟨⟩⟩
    · rintro ⟨-, fits⟩
      omega
  · constructor
    · intro _
      refine ⟨?_, not_lt.mp large⟩
      cases held : table.records.contains context.key with
      | true => exact .inl rfl
      | false => exact .inr (not_le.mp fun many => full ⟨by rw [held]; rfl, many⟩)
    · intro _
      exact ⟨_, rfl⟩

end SessionTable

section Entries
variable {policy : ClusterPolicy} {working : Working} {entry : Entry} {envelope : ConfigEnvelope}
  {carried : Carried} {session : SessionKey × Nat} {raft : RaftNode}

theorem carryConfig_single (single : singleEntry envelope.operation)
    (decoded : ConfigEnvelope.decode entry.payload = .ok envelope)
    (kind : entry.kind = kindOf envelope.operation) (asked : envelope.adminSession = some session) :
    carryConfig policy working entry =
      carryAdmin policy (working.marked entry envelope) entry envelope session entry.payload
        envelope.operation.tag envelope.operation.tag .applied := by
  rcases envelope with ⟨adminSession, leaderTime, operation⟩
  obtain rfl : adminSession = some session := asked
  unfold carryConfig
  rw [decoded, kind]
  cases operation with
  | addLearner | removeLearner | updateAddress | activateFeature => rfl
  | _ => cases single

theorem envelope?_of_decode (decoded : ConfigEnvelope.decode entry.payload = .ok envelope) :
    entry.envelope? = some envelope := by
  simp [Entry.envelope?, decoded, Except.toOption]

theorem isConfig_of_kind (kind : entry.kind = kindOf envelope.operation) : entry.kind.isConfig := by
  rw [kind]
  cases envelope.operation <;> rfl

theorem applyCommittedConfig_single (single : singleEntry envelope.operation)
    (decoded : ConfigEnvelope.decode entry.payload = .ok envelope) (kind : entry.kind = kindOf envelope.operation) :
    (∃ after effects, raft.applyCommittedConfig entry = (after, .ok effects)) ↔
      refusesApply raft envelope.operation = false := by
  have config := isConfig_of_kind kind
  have known := envelope?_of_decode decoded
  unfold RaftNode.applyCommittedConfig
  simp only [config, known, Bool.not_true, Bool.false_eq_true, if_false]
  cases operation : envelope.operation with
  | addLearner id address =>
    dsimp only
    split <;> exact ⟨fun _ => rfl, fun _ => ⟨_, _, rfl⟩⟩
  | removeLearner | updateAddress => exact ⟨fun _ => rfl, fun _ => ⟨_, _, rfl⟩⟩
  | activateFeature feature =>
    simp only [refusesApply]
    cases (feature != atomicBatchFeature || raft.activeFeatures &&& feature != 0) with
    | true =>
      constructor
      · rintro ⟨after, effects, refused⟩
        cases (Prod.mk.inj refused).2
      · intro other
        cases other
    | false => exact ⟨fun _ => rfl, fun _ => ⟨_, _, rfl⟩⟩
  | _ =>
    rw [operation] at single
    cases single

def appliedReply (entry : Entry) (operation : ConfigOperation) : AdminReply :=
  ⟨operation.tag, .applied, entry.index, []⟩

def AppliedOnce (policy : ClusterPolicy) (working : Working) (entry : Entry) (operation : ConfigOperation)
    (session : SessionKey × Nat) : Prop :=
  ∃ carried effects, carryConfig policy working entry = .ok carried ∧
    carried.adminReply = some (session.1, appliedReply entry operation) ∧
    working.raft.applyCommittedConfig entry = (carried.next.raft, .ok effects) ∧
    carried.postEffects = effects

theorem appliedOnce_iff (single : singleEntry envelope.operation)
    (decoded : ConfigEnvelope.decode entry.payload = .ok envelope)
    (kind : entry.kind = kindOf envelope.operation) (asked : envelope.adminSession = some session)
    (previewed : working.sessions.previewAdmin policy session.1 session.2 entry.payload
      envelope.operation.tag envelope.leaderTime = .ok none) :
    AppliedOnce policy working entry envelope.operation session ↔
      working.sessions.resting session.1 envelope.leaderTime = false ∧
      working.sessions.hasSeat policy session.1 ∧
      working.sessions.fitsReply policy session.1 entry.payload (appliedReply entry envelope.operation) ∧
      refusesApply working.raft envelope.operation = false := by
  have through := SessionTable.letsThrough_of_preview previewed
  unfold AppliedOnce
  rw [carryConfig_single single decoded kind asked]
  constructor
  · rintro ⟨carried, effects, done, answered, ran, -⟩
    rcases carryAdmin_ok done with ⟨reply, later, applied, replied, -⟩
    change working.sessions.applyAdmin _ _ working.raft = _ at applied
    obtain rfl : reply = appliedReply entry envelope.operation := by
      rw [answered] at replied
      exact (congrArg Prod.snd (Option.some.inj replied)).symm
    have awake : working.sessions.resting session.1 envelope.leaderTime = false := by
      by_contra resting
      rw [SessionTable.applyAdmin_resting (Bool.not_eq_false _ ▸ resting)] at applied
      simp [appliedReply] at applied
    rw [SessionTable.applyAdmin_runs (by rw [through, awake]; rfl)] at applied
    have remembered := (SessionTable.runAdmin_answers_iff (SessionTable.runAdmin_ok applied)).mp ⟨_, applied⟩
    exact ⟨awake, remembered.1, remembered.2, (applyCommittedConfig_single single decoded kind).mp ⟨_, _, ran⟩⟩
  · rintro ⟨awake, seat, fits, accepted⟩
    rcases (applyCommittedConfig_single single decoded kind).mpr accepted with ⟨after, effects, ran⟩
    have mutated : adminMutation entry envelope.operation.tag .applied working.raft =
        (after, .ok (appliedReply entry envelope.operation, effects)) := by
      simp only [adminMutation, ran, appliedReply]
    have answers : ∃ left, (working.sessions.retainTombstones envelope.leaderTime).runAdmin
        ⟨policy, session.1, session.2, entry.payload, envelope.operation.tag, entry.index, envelope.leaderTime⟩
        (adminMutation entry envelope.operation.tag .applied) working.raft =
          (left, after, .ok (appliedReply entry envelope.operation, effects)) :=
      (SessionTable.runAdmin_answers_iff mutated).mpr ⟨seat, fits⟩
    rcases answers with ⟨left, answers⟩
    have applied : (working.marked entry envelope).sessions.applyAdmin
        ⟨policy, session.1, session.2, entry.payload, envelope.operation.tag, entry.index, envelope.leaderTime⟩
        (adminMutation entry envelope.operation.tag .applied) (working.marked entry envelope).raft =
          (left, after, .ok (appliedReply entry envelope.operation, effects)) := by
      change working.sessions.applyAdmin _ _ working.raft = _
      rw [SessionTable.applyAdmin_runs (by rw [through, awake]; rfl)]
      exact answers
    exact ⟨_, effects, carryAdmin_of applied, rfl, ran, rfl⟩

theorem carryConfig_unapplied (single : singleEntry envelope.operation)
    (decoded : ConfigEnvelope.decode entry.payload = .ok envelope)
    (kind : entry.kind = kindOf envelope.operation) (asked : envelope.adminSession = some session)
    (done : carryConfig policy working entry = .ok carried) {reply : AdminReply}
    (answered : carried.adminReply = some (session.1, reply)) (other : reply.result ≠ .applied) :
    carried.next.raft = working.raft := by
  rw [carryConfig_single single decoded kind asked] at done
  rcases carryAdmin_ok done with ⟨found, effects, applied, replied, -⟩
  change working.sessions.applyAdmin _ _ working.raft = _ at applied
  obtain rfl : found = reply := by
    rw [answered] at replied
    exact (congrArg Prod.snd (Option.some.inj replied)).symm
  cases through : working.sessions.letsThrough policy session.1 session.2 envelope.leaderTime with
  | true =>
    -- The mutation ran, and its reply is `Applied`.
    rw [SessionTable.applyAdmin_runs through] at applied
    have ran := SessionTable.runAdmin_ok applied
    unfold adminMutation at ran
    split at ran
    · cases ran
      exact absurd rfl other
    · cases ran
  | false =>
    have kept : (working.sessions.applyAdmin
        ⟨policy, session.1, session.2, entry.payload, envelope.operation.tag, entry.index,
          envelope.leaderTime⟩
        (adminMutation entry envelope.operation.tag .applied) working.raft).2.1 = working.raft :=
      (SessionTable.applyAdmin_declines through).1
    rwa [applied] at kept

def keepsMembership (raft : RaftNode) : ConfigOperation → Bool
  | .activateFeature _ => true
  | .updateAddress id address => raft.addresses[id]? == some address
  | _ => false

theorem applyConfigOnAppend_keeps_iff {next : RaftNode} (single : singleEntry envelope.operation)
    (decoded : ConfigEnvelope.decode entry.payload = .ok envelope)
    (appended : raft.applyConfigOnAppend entry = .ok next) :
    next.membershipState = raft.membershipState ↔ keepsMembership raft envelope.operation := by
  unfold RaftNode.applyConfigOnAppend at appended
  simp only [envelope?_of_decode decoded] at appended
  cases operation : envelope.operation with
  | addLearner id address =>
    simp only [operation] at appended
    split at appended
    · cases appended
    next fresh =>
      cases appended
      refine ⟨fun same => ?_, nofun⟩
      have learners := congrArg MembershipState.learners same
      simp only [RaftNode.membershipState] at learners
      simp only [Bool.or_eq_true, not_or, Bool.not_eq_true] at fresh
      rw [← learners] at fresh
      simp at fresh
  | removeLearner id =>
    simp only [operation] at appended
    split at appended
    · cases appended
    next held =>
      cases appended
      refine ⟨fun same => ?_, nofun⟩
      have learners := congrArg MembershipState.learners same
      simp only [RaftNode.membershipState] at learners
      rw [← learners] at held
      simp at held
  | updateAddress id address =>
    simp only [operation] at appended
    split at appended
    · cases appended
    next member =>
      cases appended
      simp only [keepsMembership, beq_iff_eq]
      constructor
      · intro same
        have here := congrArg (fun state : MembershipState => state.addresses[id]?) same
        simp only [RaftNode.membershipState, Std.ExtTreeMap.getElem?_filter'] at here
        have listed : (raft.voters.contains id || raft.learners.contains id) = true := by
          cases voter : raft.voters.contains id <;> simp_all
        rw [Std.ExtTreeMap.getElem?_insert_self] at here
        cases held : raft.addresses[id]? <;> simp_all [Option.filter]
      · intro held
        have same : raft.addresses.insert id address = raft.addresses := by
          apply Std.ExtTreeMap.ext_getElem?
          intro other
          rw [Std.ExtTreeMap.getElem?_insert]
          split
          next equal =>
            rw [← Std.compare_eq_iff_eq.mp equal, held]
          · rfl
        simp only [RaftNode.membershipState, same]
  | activateFeature feature =>
    simp only [operation] at appended
    split at appended
    · cases appended
    · cases appended
      exact ⟨fun _ => rfl, fun _ => rfl⟩
  | _ =>
    rw [operation] at single
    cases single

end Entries

/-- If the preview lets a single-entry request go on and nothing happens to the
session before its entry is applied, the entry runs its mutation once and answers
`Applied` exactly if the session has no tombstone in force, the table has room and
Raft does not refuse. An entry answered otherwise has changed nothing exactly if its
append changed nothing. -/
theorem admin_reply_honest_iff {policy : ClusterPolicy} {working : Working} {entry : Entry}
    {envelope : ConfigEnvelope} {session : SessionKey × Nat} (single : singleEntry envelope.operation)
    (decoded : ConfigEnvelope.decode entry.payload = .ok envelope)
    (kind : entry.kind = kindOf envelope.operation) (asked : envelope.adminSession = some session) :
    (working.sessions.previewAdmin policy session.1 session.2 entry.payload envelope.operation.tag
        envelope.leaderTime = .ok none →
      (AppliedOnce policy working entry envelope.operation session ↔
        working.sessions.resting session.1 envelope.leaderTime = false ∧
        working.sessions.hasSeat policy session.1 ∧
        working.sessions.fitsReply policy session.1 entry.payload (appliedReply entry envelope.operation) ∧
        refusesApply working.raft envelope.operation = false)) ∧
    (∀ {before appended : RaftNode} {carried : Carried} {reply : AdminReply},
      before.applyConfigOnAppend entry = .ok appended →
      carryConfig policy working entry = .ok carried → carried.adminReply = some (session.1, reply) →
      reply.result ≠ .applied →
      (appended.membershipState = before.membershipState ∧
          carried.next.raft.membershipState = working.raft.membershipState ↔
        keepsMembership before envelope.operation)) := by
  constructor
  · exact appliedOnce_iff single decoded kind asked
  · intro before appended carried reply pushed done answered other
    rw [carryConfig_unapplied single decoded kind asked done answered other,
      ← applyConfigOnAppend_keeps_iff single decoded pushed]
    exact and_iff_left rfl

def learnerEnvelope (sequence leaderTime : Nat) : ConfigEnvelope where
  adminSession := some (operator, sequence)
  leaderTime := leaderTime
  operation := .addLearner 9 none

def replicaWith (sessions : SessionTable) : Working where
  kv := .new .default
  sessions := sessions
  raft := RaftNode.new 3 (Std.ExtTreeSet.ofList [1, 2, 3] compare) 3 .default

def graceTable : SessionTable := { SessionTable.empty with tombstones := (∅ : BTreeMap _ _).insert operator ⟨3, 100⟩ }

theorem admin_reply_honest_iff_first :
    AppliedOnce .default (replicaWith .empty) (adminEntry 1 (learnerEnvelope 1 5)) (.addLearner 9 none)
      (operator, 1) := by
  have decoded : ConfigEnvelope.decode (adminEntry 1 (learnerEnvelope 1 5)).payload =
      .ok (learnerEnvelope 1 5) := by decide +kernel
  refine ((admin_reply_honest_iff rfl decoded rfl rfl).1 ?_).mpr ⟨?_, ?_, ?_, ?_⟩
  · decide +kernel
  · decide +kernel
  · decide +kernel
  · decide +kernel
  · rfl

/-- A new sequence of a session in its grace time passes the preview; its append adds
the learner, and the reply says that the request has expired. -/
theorem expired_request_adds_learner :
    graceTable.previewAdmin .default operator 5 (learnerEnvelope 5 7).encode 1 7 = .ok none ∧
    ((carryConfig .default (replicaWith graceTable) (adminEntry 1 (learnerEnvelope 5 7))).toOption.map
      fun carried => carried.adminReply) =
        some (some (operator, ⟨1, .requestExpired, 1, detailText "retry-grace"⟩)) ∧
    (((replicaWith graceTable).raft.applyConfigOnAppend
      (adminEntry 1 (learnerEnvelope 5 7))).toOption.map fun raft => raft.membershipState.learners.contains 9) =
        some true := by
  decide +kernel

end CrashCourse.Cluster
