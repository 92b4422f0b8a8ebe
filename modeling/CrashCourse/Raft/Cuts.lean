import CrashCourse.Core.Envelopes
import CrashCourse.Raft.Log

/-!
The rules for configuration entries read the retained log: two nodes that differ only in
how much of it they have compacted are compared.
-/

namespace CrashCourse.Raft
open CrashCourse.Core

def transferAfter (entries : List Entry) (transfer : Option Nat) : Option (Option Nat) :=
  entries.foldlM transferScanStep transfer

theorem transferScan_append (first rest : List Entry) (transfer : Option Nat) :
    transferScan (first ++ rest) transfer =
      (transferAfter first transfer).all fun transfer => transferScan rest transfer := by
  induction first generalizing transfer with
  | nil => rfl
  | cons entry first ih =>
    simp only [List.cons_append, transferScan, transferAfter, List.foldlM_cons]
    cases transferScanStep transfer entry with
    | none => rfl
    | some next => exact ih next

/-- With a transfer open, the scan cannot come out closed both for a node that knows
of it and for one that does not: the terminal entry that closes it is an orphan. -/
theorem transferScan_open (rest : List Entry) (intent : Nat) :
    (transferScan rest (some intent) || transferScan rest none) = true := by
  induction rest with
  | nil => rfl
  | cons entry rest ih =>
    unfold transferScan transferScanStep
    cases entry.envelope? with
    | none => rfl
    | some envelope =>
      cases operation : envelope.operation <;> simp_all

def configEntries (log : List Entry) : List Entry := log.filter fun entry => entry.kind.isConfig

/-- The dropped part leaves no transfer open, or the retained part is in flight either
way. -/
def cutKeepsScan (dropped kept : List Entry) : Bool :=
  match transferAfter (configEntries dropped) none with
  | some none => true
  | some (some intent) => transferScan (configEntries kept) (some intent) && transferScan (configEntries kept) none
  | none => transferScan (configEntries kept) none

theorem cutKeepsScan_iff (dropped kept : List Entry) : cutKeepsScan dropped kept = true ↔
      transferScan (configEntries (dropped ++ kept)) none = transferScan (configEntries kept) none := by
  have split : configEntries (dropped ++ kept) = configEntries dropped ++ configEntries kept :=
    List.filter_append ..
  rw [split, transferScan_append]
  unfold cutKeepsScan
  cases transferAfter (configEntries dropped) none with
  | none => exact ⟨fun flying => flying.symm, fun flying => flying.symm⟩
  | some transfer =>
    cases transfer with
    | none => exact ⟨fun _ => rfl, fun _ => rfl⟩
    | some intent =>
      have either := transferScan_open (configEntries kept) intent
      simp only [Option.all_some]
      generalize transferScan (configEntries kept) (some intent) = known at either ⊢
      generalize transferScan (configEntries kept) none = unknown at either ⊢
      revert known unknown
      decide

namespace RaftNode

/-- Two states that agree but for the log and what a snapshot replaces: one has
compacted the applied entries `dropped`. -/
structure SameButCut (dropped : List Entry) (full short : RaftNode) : Prop where
  log : full.log = dropped ++ short.log
  numbered : Numbered full.snapshotIndex full.log
  applied : ∀ entry ∈ dropped, entry.index ≤ full.appliedIndex
  ordered : full.appliedIndex ≤ full.commitIndex
  bounded : full.lastIndex < 2 ^ 64
  last : short.lastIndex = full.lastIndex
  rest : short = { full with
    log := short.log
    snapshotIndex := short.snapshotIndex
    snapshotTerm := short.snapshotTerm
    baseVoters := short.baseVoters
    baseLearners := short.baseLearners
    baseJoint := short.baseJoint
    baseJointEnterIndex := short.baseJointEnterIndex
    baseAddresses := short.baseAddresses
    baseActiveFeatures := short.baseActiveFeatures }

/-- The verdict of `applyConfigOnAppend`, with what it reads from the log as arguments. -/
def allowsAppend (node : RaftNode) (entry : Entry) (inFlight : Bool) (begun : Nat → Bool)
    (activated : UInt64 → Bool) : Bool :=
  match entry.envelope? with
  | none => false
  | some envelope =>
    match envelope.operation with
    | .addLearner id _ => !(node.voters.contains id || node.learners.contains id)
    | .removeLearner id => !(!node.learners.contains id)
    | .updateAddress id _ => !(!node.voters.contains id && !node.learners.contains id)
    | .enterJoint newVoters => !(node.joint.isSome || inFlight || newVoters.isEmpty)
    | .leaveJoint enterIndex => node.joint.isSome && node.jointEnterIndex == some enterIndex
    | .beginLeaderTransfer target =>
      !(!node.voters.contains target || node.joint.isSome || inFlight)
    | .finishLeaderTransfer intentIndex _ =>
      node.transfer.any (fun transfer => transfer.intentIndex == intentIndex)
        || (decide (intentIndex < entry.index) && begun intentIndex)
    | .activateFeature feature =>
      !(feature != atomicBatchFeature || (node.activeFeatures &&& feature) != 0
        || activated feature)

def holdsBegin (log : List Entry) (intent : Nat) : Bool :=
  log.any fun candidate => candidate.index == intent && candidate.configHas isBeginTransfer

def holdsActivation (log : List Entry) (feature : UInt64) : Bool :=
  log.any fun prior => prior.configHas (isActivationOf feature)

theorem isOk_refuse {ε α : Type} {error : ε} {value : α} (refused : Bool) :
    (if refused = true then Except.error error else Except.ok value).isOk = !refused := by
  cases refused <;> rfl

theorem isOk_accept {ε α : Type} {error : ε} {value : α} (accepted : Bool) :
    (if accepted = true then Except.ok value else Except.error error).isOk = accepted := by
  cases accepted <;> rfl

theorem applyConfigOnAppend_isOk (node : RaftNode) (entry : Entry) : (node.applyConfigOnAppend entry).isOk =
      node.allowsAppend entry (node.configTransitionInFlightBefore entry.index) (holdsBegin node.log)
        (holdsActivation node.log) := by
  unfold applyConfigOnAppend allowsAppend
  cases entry.envelope? with
  | none => rfl
  | some envelope =>
    dsimp only
    cases envelope.operation with
    | leaveJoint enterIndex =>
      dsimp only
      cases node.joint with
      | none => rfl
      | some pair =>
        by_cases same : node.jointEnterIndex = some enterIndex <;>
          simp [same, Except.isOk, Except.toBool]
    | finishLeaderTransfer intent result => exact isOk_accept _
    | _ => exact isOk_refuse _

theorem proposeAdminConfig_isOk (node : RaftNode) (envelope : ConfigEnvelope) :
    (node.proposeAdminConfig envelope).2.isOk =
      (decide (node.role = .leader) &&
        (envelope.adminSession.any fun (session, sequence) =>
          session.namespaceCode == SessionNamespace.adminRequest.code && sequence != 0) &&
        (node.adminRefusal envelope).isNone &&
        (node.applyConfigOnAppend (node.configEntry envelope)).isOk) := by
  unfold proposeAdminConfig
  by_cases leads : node.role = .leader
  · rw [if_neg (not_not.mpr leads), decide_eq_true leads, Bool.true_and]
    cases envelope.adminSession with
    | none => rfl
    | some pair =>
      obtain ⟨session, sequence⟩ := pair
      dsimp only [Option.any_some]
      split
      · next wrong =>
        rcases wrong with wrong | wrong <;> simp [wrong, Except.isOk, Except.toBool]
      next right =>
      rw [not_or, not_not] at right
      have named : (session.namespaceCode == SessionNamespace.adminRequest.code && sequence != 0) =
          true := by simp [right]
      rw [named, Bool.true_and]
      cases node.adminRefusal envelope with
      | some error => rfl
      | none =>
        unfold appendConfig
        dsimp only [Option.isNone_none]
        cases node.applyConfigOnAppend (node.configEntry envelope) <;> rfl
  · rw [if_pos leads, decide_eq_false leads]
    rfl

section
variable {dropped : List Entry} {full short : RaftNode} (same : SameButCut dropped full short)
include same

namespace SameButCut

theorem below_last {entry : Entry} (member : entry ∈ full.log) : entry.index < full.lastIndex + 1 := by
  obtain ⟨position, here⟩ := List.getElem?_of_mem member
  obtain ⟨within, _⟩ := List.getElem?_eq_some_iff.mp here
  have index := same.numbered.getElem_index here
  cases ended : full.log.getLast? with
  | none =>
    rw [List.getLast?_eq_none_iff.mp ended] at within
    exact absurd within (Nat.not_lt_zero _)
  | some last =>
    have top := same.numbered.getLast_index ended
    unfold lastIndex
    rw [ended]
    dsimp only
    omega

theorem inFlight_eq_iff : short.configTransitionInFlightBefore (full.lastIndex + 1) =
        full.configTransitionInFlightBefore (full.lastIndex + 1) ↔
      cutKeepsScan dropped short.log = true := by
  have all : ∀ log : List Entry, (∀ entry ∈ log, entry ∈ full.log) →
      (log.filter fun entry => entry.kind.isConfig && decide (entry.index < full.lastIndex + 1)) =
        configEntries log := by
    intro log within
    apply List.filter_congr
    intro entry member
    rw [decide_eq_true (same.below_last (within entry member)), Bool.and_true]
  unfold configTransitionInFlightBefore
  rw [all full.log fun _ member => member, all short.log fun _ member => by
    rw [same.log]
    exact List.mem_append_right _ member, same.log, cutKeepsScan_iff]
  exact eq_comm

theorem uncommitted_eq : short.uncommittedMembershipChange = full.uncommittedMembershipChange := by
  have commit : short.commitIndex = full.commitIndex := by rw [same.rest]
  unfold uncommittedMembershipChange
  rw [commit, same.log, List.reverse_append, List.takeWhile_append]
  -- a dropped entry is applied, so the walk down from the end stops above it
  have none : (dropped.reverse.takeWhile fun entry => decide (entry.index > full.commitIndex)) = [] := by
    cases shape : dropped.reverse with
    | nil => rfl
    | cons entry rest =>
      have member : entry ∈ dropped := List.mem_reverse.mp (shape ▸ List.mem_cons_self)
      have low := (same.applied entry member).trans same.ordered
      exact List.takeWhile_cons_of_neg (by simpa using low)
  rw [none, List.append_nil]
  split
  · next all => rw [(List.takeWhile_prefix _).eq_of_length all]
  · rfl

theorem configEntry_eq (envelope : ConfigEnvelope) : short.configEntry envelope = full.configEntry envelope := by
  have state : short.hardState = full.hardState := by rw [same.rest]
  unfold configEntry
  rw [state, same.last]

theorem allowsAppend_eq (entry : Entry) (inFlight : Bool) (begun : Nat → Bool) (activated : UInt64 → Bool) :
    short.allowsAppend entry inFlight begun activated =
      full.allowsAppend entry inFlight begun activated := by
  rw [same.rest]
  rfl

theorem adminRefusal_eq (scan : full.joint.isSome = true ∨ cutKeepsScan dropped short.log = true)
    (envelope : ConfigEnvelope) : short.adminRefusal envelope = full.adminRefusal envelope := by
  have id : short.id = full.id := by rw [same.rest]
  have voters : short.voters = full.voters := by rw [same.rest]
  have learners : short.learners = full.learners := by rw [same.rest]
  have joint : short.joint = full.joint := by rw [same.rest]
  have entered : short.jointEnterIndex = full.jointEnterIndex := by rw [same.rest]
  have addresses : short.addresses = full.addresses := by rw [same.rest]
  have features : short.activeFeatures = full.activeFeatures := by rw [same.rest]
  have commit : short.commitIndex = full.commitIndex := by rw [same.rest]
  have matched : short.matchIndex = full.matchIndex := by rw [same.rest]
  have transfer : short.transfer = full.transfer := by rw [same.rest]
  have recent : short.contactIsRecent = full.contactIsRecent := by rw [same.rest]; rfl
  have ready : short.readyLearner = full.readyLearner := by rw [same.rest]; rfl
  unfold adminRefusal
  rw [id, voters, learners, joint, entered, addresses, features, commit, matched, transfer, recent,
    ready, same.last, same.uncommitted_eq]
  rcases scan with joined | kept
  · -- inside a joint configuration no operation gets to the scan
    cases envelope.operation <;> simp [joined]
  · dsimp only
    rw [same.inFlight_eq_iff.mpr kept]

theorem begins_eq (intent : Nat) :
    holdsBegin full.log intent = (holdsBegin dropped intent || holdsBegin short.log intent) := by
  unfold holdsBegin
  rw [same.log, List.any_append]

theorem activates_eq (feature : UInt64) :
    holdsActivation full.log feature = (holdsActivation dropped feature || holdsActivation short.log feature) := by
  unfold holdsActivation
  rw [same.log, List.any_append]

end SameButCut
end

/-- What the rules must still find without the dropped entries: the scan, the
activations and the begun transfers. -/
def cutHidesNothing (dropped : List Entry) (full short : RaftNode) : Prop :=
  (full.joint.isSome = true ∨ cutKeepsScan dropped short.log = true) ∧
  (holdsActivation dropped atomicBatchFeature = true →
    (full.activeFeatures &&& atomicBatchFeature) ≠ 0 ∨ holdsActivation short.log atomicBatchFeature = true) ∧
  ∀ intent, holdsBegin dropped intent = true →
    full.transfer.any (fun transfer => transfer.intentIndex == intent) = true

def nextEntry (node : RaftNode) (operation : ConfigOperation) : Entry :=
  node.configEntry { adminSession := none, leaderTime := 0, operation }

theorem nextEntry_envelope (node : RaftNode) {operation : ConfigOperation}
    (back : ConfigEnvelope.decode (ConfigEnvelope.encode ⟨none, 0, operation⟩) = .ok ⟨none, 0, operation⟩) :
    (node.nextEntry operation).envelope? = some ⟨none, 0, operation⟩ := by
  unfold Entry.envelope?
  change (ConfigEnvelope.decode (ConfigEnvelope.encode ⟨none, 0, operation⟩)).toOption = _
  rw [back]
  rfl

section
variable (node : RaftNode) (begun : Nat → Bool) (activated : UInt64 → Bool) (inFlight : Bool)

/-! One entry for each reading of the log that shows what the log says. -/

theorem allowsAppend_enter :
    node.allowsAppend (node.nextEntry (.enterJoint ((∅ : BTreeSet NodeId).insert 1))) inFlight begun
      activated = !(node.joint.isSome || inFlight) := by
  unfold allowsAppend
  rw [nextEntry_envelope node (by decide +kernel)]
  have member : ((∅ : BTreeSet NodeId).insert 1).isEmpty = false := by decide
  dsimp only
  rw [member, Bool.or_false]

theorem allowsAppend_activate :
    node.allowsAppend (node.nextEntry (.activateFeature atomicBatchFeature)) inFlight begun activated =
      !((node.activeFeatures &&& atomicBatchFeature) != 0 || activated atomicBatchFeature) := by
  unfold allowsAppend
  rw [nextEntry_envelope node (by decide +kernel)]
  rfl

theorem allowsAppend_finish {intent : Nat} (positive : intent ≠ 0) (within : intent ≤ node.lastIndex)
    (fits : intent < 2 ^ 64) :
    node.allowsAppend (node.nextEntry (.finishLeaderTransfer intent .timeout)) inFlight begun activated =
      (node.transfer.any (fun transfer => transfer.intentIndex == intent) || begun intent) := by
  have below : intent < (node.nextEntry (.finishLeaderTransfer intent .timeout)).index :=
    Nat.lt_succ_of_le within
  have back : ConfigEnvelope.decode
      (ConfigEnvelope.encode ⟨none, 0, .finishLeaderTransfer intent .timeout⟩) =
      .ok ⟨none, 0, .finishLeaderTransfer intent .timeout⟩ := by
    apply ConfigEnvelope.decode_encode
    · trivial
    · exact Nat.two_pow_pos 64
    · simp [ConfigOperation.encodeBody, Enc.u64, Enc.u8, leBytes_length, maxCodecBytes]
    · exact ConfigOperation.decode_finish positive fits .timeout
  unfold allowsAppend
  rw [nextEntry_envelope node back]
  dsimp only
  rw [decide_eq_true below, Bool.true_and]

theorem allowsAppend_congr {begun' : Nat → Bool} {activated' : UInt64 → Bool} {inFlight' : Bool}
    (scan : node.joint.isSome = true ∨ inFlight = inFlight')
    (begin' : ∀ intent, node.transfer.any (fun transfer => transfer.intentIndex == intent) = true ∨
      begun intent = begun' intent) (active : (node.activeFeatures &&& atomicBatchFeature) ≠ 0 ∨
      activated atomicBatchFeature = activated' atomicBatchFeature) (entry : Entry) :
    node.allowsAppend entry inFlight begun activated = node.allowsAppend entry inFlight' begun' activated' := by
  unfold allowsAppend
  cases entry.envelope? with
  | none => rfl
  | some envelope =>
    dsimp only
    cases envelope.operation with
    | enterJoint newVoters | beginLeaderTransfer target => rcases scan with joined | rfl <;> simp_all
    | finishLeaderTransfer intent result =>
      rcases begin' intent with held | same
      · simp only [held, Bool.true_or]
      · simp only [same]
    | activateFeature feature =>
      dsimp only
      by_cases known : feature = atomicBatchFeature
      · subst known
        rcases active with active | same
        · simp [bne_iff_ne.mpr active]
        · rw [same]
      · simp [bne_iff_ne.mpr known]
    | _ => rfl

end

namespace SameButCut
variable {dropped : List Entry} {full short : RaftNode} (same : SameButCut dropped full short)
include same

theorem begins_only {intent : Nat} (begun : holdsBegin dropped intent = true) :
    intent ≠ 0 ∧ intent ≤ full.lastIndex ∧ holdsBegin short.log intent = false := by
  obtain ⟨entry, member, here⟩ := List.any_eq_true.mp begun
  have index : entry.index = intent := by
    rw [Bool.and_eq_true, beq_iff_eq] at here
    exact here.1
  have listed : entry ∈ full.log := by
    rw [same.log]
    exact List.mem_append_left _ member
  have low := same.numbered.index_gt listed
  have high := same.below_last listed
  refine ⟨by omega, by omega, ?_⟩
  rw [holdsBegin, List.any_eq_false]
  intro other kept both
  rw [Bool.and_eq_true, beq_iff_eq] at both
  -- positions in the log give different indexes
  obtain ⟨position, here⟩ := List.getElem?_of_mem member
  obtain ⟨position', here'⟩ := List.getElem?_of_mem kept
  obtain ⟨within, _⟩ := List.getElem?_eq_some_iff.mp here
  have first : full.log[position]? = some entry := by
    rw [same.log, List.getElem?_append_left within]
    exact here
  have second : full.log[dropped.length + position']? = some other := by
    rw [same.log, List.getElem?_append_right (Nat.le_add_right ..), Nat.add_sub_cancel_left]
    exact here'
  have one := same.numbered.getElem_index first
  have two := same.numbered.getElem_index second
  omega

end SameButCut

/-- The rules for the next configuration entry and for proposals do not see the cut
exactly if the dropped entries hide nothing. -/
theorem config_rules_ignore_cut_iff {dropped : List Entry} {full short : RaftNode}
    (same : SameButCut dropped full short) : ((∀ entry, entry.index = full.lastIndex + 1 →
        (short.applyConfigOnAppend entry).isOk = (full.applyConfigOnAppend entry).isOk) ∧
      ∀ envelope, (short.proposeAdminConfig envelope).2.isOk = (full.proposeAdminConfig envelope).2.isOk) ↔
    cutHidesNothing dropped full short := by
  have verdict : ∀ entry, entry.index = full.lastIndex + 1 →
      (short.applyConfigOnAppend entry).isOk =
        full.allowsAppend entry (short.configTransitionInFlightBefore (full.lastIndex + 1))
          (holdsBegin short.log) (holdsActivation short.log) := by
    intro entry index
    rw [applyConfigOnAppend_isOk, same.allowsAppend_eq, index]
  have verdict' : ∀ entry, entry.index = full.lastIndex + 1 →
      (full.applyConfigOnAppend entry).isOk =
        full.allowsAppend entry (full.configTransitionInFlightBefore (full.lastIndex + 1))
          (holdsBegin full.log) (holdsActivation full.log) := by
    intro entry index
    rw [applyConfigOnAppend_isOk, index]
  constructor
  · rintro ⟨appends, -⟩
    have shown : ∀ operation, full.allowsAppend (full.nextEntry operation)
        (short.configTransitionInFlightBefore (full.lastIndex + 1)) (holdsBegin short.log)
        (holdsActivation short.log) =
        full.allowsAppend (full.nextEntry operation)
          (full.configTransitionInFlightBefore (full.lastIndex + 1)) (holdsBegin full.log)
          (holdsActivation full.log) := by
      intro operation
      rw [← verdict _ rfl, ← verdict' _ rfl, appends _ rfl]
    constructor
    · have entered := shown (.enterJoint ((∅ : BTreeSet NodeId).insert 1))
      rw [allowsAppend_enter, allowsAppend_enter] at entered
      cases joined : full.joint.isSome with
      | true => exact .inl rfl
      | false =>
        rw [joined, Bool.false_or, Bool.false_or] at entered
        exact .inr (same.inFlight_eq_iff.mp (Bool.not_inj entered))
    constructor
    · intro gone
      have activated := shown (.activateFeature atomicBatchFeature)
      rw [allowsAppend_activate, allowsAppend_activate, same.activates_eq, gone] at activated
      apply or_iff_not_imp_left.mpr
      simpa using activated
    · intro intent gone
      obtain ⟨positive, within, lost⟩ := same.begins_only gone
      have finished := shown (.finishLeaderTransfer intent .timeout)
      have fits := Nat.lt_of_le_of_lt within same.bounded
      rw [allowsAppend_finish _ _ _ _ positive within fits,
        allowsAppend_finish _ _ _ _ positive within fits, same.begins_eq, gone, lost] at finished
      simpa using finished
  · rintro ⟨scan, activated, begun⟩
    have appends : ∀ entry, entry.index = full.lastIndex + 1 →
        (short.applyConfigOnAppend entry).isOk = (full.applyConfigOnAppend entry).isOk := by
      intro entry index
      rw [verdict entry index, verdict' entry index]
      apply allowsAppend_congr
      · exact scan.imp_right same.inFlight_eq_iff.mpr
      · intro intent
        rw [same.begins_eq]
        cases gone : holdsBegin dropped intent with
        | true => exact .inl (begun intent gone)
        | false => exact .inr rfl
      · rw [same.activates_eq]
        cases gone : holdsActivation dropped atomicBatchFeature with
        | true =>
          rcases activated gone with active | kept
          · exact .inl active
          · exact .inr kept
        | false => exact .inr rfl
    refine ⟨appends, ?_⟩
    intro envelope
    have role : short.role = full.role := by rw [same.rest]
    rw [proposeAdminConfig_isOk, proposeAdminConfig_isOk, role, same.adminRefusal_eq scan,
      same.configEntry_eq, appends _ rfl]

def leaderOf (log : List Entry) : RaftNode :=
  { RaftNode.new 1 (Std.ExtTreeSet.ofList [1, 2, 3] compare) 1 .default with
    role := .leader
    hardState := ⟨1, some 1⟩
    learners := (∅ : BTreeSet NodeId).insert 9
    log
    commitIndex := log.length
    appliedIndex := log.length }

def configAt (index : Nat) (operation : ConfigOperation) : Entry :=
  ⟨1, index, .config, ConfigEnvelope.encode ⟨none, 0, operation⟩⟩

def forgetLearner : ConfigEnvelope where
  adminSession := some (⟨SessionNamespace.adminRequest.code, 7⟩, 1)
  leaderTime := 0
  operation := .removeLearner 9

theorem config_rules_ignore_cut_iff_learner :
    ((leaderOf [configAt 1 (.addLearner 9 none), ⟨1, 2, .noop, []⟩]).proposeAdminConfig
        forgetLearner).2.isOk = true ∧
    (((leaderOf [configAt 1 (.addLearner 9 none), ⟨1, 2, .noop, []⟩]).installSnapshotState 1 1
        ).proposeAdminConfig forgetLearner).2.isOk =
      ((leaderOf [configAt 1 (.addLearner 9 none), ⟨1, 2, .noop, []⟩]).proposeAdminConfig
        forgetLearner).2.isOk := by
  refine ⟨by decide +kernel, ?_⟩
  apply ((@config_rules_ignore_cut_iff [configAt 1 (.addLearner 9 none)] _ _ ?_).mpr ?_).2
  · constructor
    · decide +kernel
    · decide +kernel
    · decide +kernel
    · decide +kernel
    · decide +kernel
    · decide +kernel
    · rfl
  · have plain : (configAt 1 (.addLearner 9 none)).configHas isBeginTransfer = false := by decide +kernel
    refine ⟨.inr (by decide +kernel), fun gone => absurd gone (by decide +kernel), ?_⟩
    intro intent gone
    simp [holdsBegin, plain] at gone

/-- With the cut inside a finished transfer the full log lets a joint configuration
begin; the compacted one finds an orphan `Finish` and refuses. -/
theorem finish_alone_blocks_changes : let full := leaderOf [configAt 1 (.beginLeaderTransfer 2),
      configAt 2 (.finishLeaderTransfer 1 .timeout)]
    let short := full.installSnapshotState 1 1
    let joint := full.nextEntry (.enterJoint (Std.ExtTreeSet.ofList [1, 2] compare))
    (full.applyConfigOnAppend joint).isOk = true ∧ (short.applyConfigOnAppend joint).isOk = false ∧
    short.commitIndex = full.commitIndex ∧ short.appliedIndex = full.appliedIndex ∧
    short.membershipState = full.membershipState ∧ short.transfer = full.transfer := by
  decide +kernel

end RaftNode
end CrashCourse.Raft
