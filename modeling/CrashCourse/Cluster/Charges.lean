import CrashCourse.Core.Envelopes
import CrashCourse.Core.Totals
import CrashCourse.Cluster.Chunks
import CrashCourse.Cluster.Carrying

/-!
What a state costs, which is the length of its checkpoint, and what a command adds: no
more than a trial on the same state says.
-/

namespace CrashCourse.Cluster
open CrashCourse.Core CrashCourse.KeyValue CrashCourse.Raft

def entryBytes (kv : LogicalKvSnapshot) : Nat :=
  (kv.entries.map fun entry => (Checkpoint.recordFrame 3 (Checkpoint.entryBody entry)).length).sum

def recordBytes (key : SessionKey) (record : SessionRecord) : Nat :=
  (Checkpoint.recordFrame 4 (Checkpoint.recordBody key record)).length

def tombstoneBytes (key : SessionKey) (tombstone : SessionTombstone) : Nat :=
  (Checkpoint.recordFrame 5 (Checkpoint.tombstoneBody key tombstone)).length

def sessionBytes (table : SessionTable) : Nat :=
  total recordBytes table.records + total tombstoneBytes table.tombstones

def stateBytes (kv : Kv) (sessions : SessionTable) : Nat :=
  entryBytes (logicalSnapshot kv kv.lastLeaderTime) + sessionBytes sessions

namespace Checkpoint

/-- The bytes that commands do not change: header, footer, membership, policy and transfer. -/
def frameBytes (checkpoint : Checkpoint) : Nat :=
  headerLen + footerLen
    + checkpoint.membership.encode.toOption.elim 0 (fun image => (recordFrame 1 image).length)
    + (recordFrame 2 checkpoint.clusterPolicy.encode).length
    + checkpoint.leadershipTransfer.elim 0 fun transfer => (recordFrame 6 (transferBody transfer)).length

theorem totalLen_eq {checkpoint : Checkpoint} {encoder : CcsnStreamEncoder}
    (done : CcsnStreamEncoder.new checkpoint = .ok encoder) : encoder.totalLen =
      checkpoint.frameBytes + entryBytes checkpoint.kv + sessionBytes checkpoint.sessions := by
  obtain ⟨membership, writable, rfl⟩ := new_ok_iff.mp done
  unfold frameBytes entryBytes sessionBytes total recordBytes tombstoneBytes
  rw [writable.image]
  change ccsnTotalLen checkpoint membership = _
  simp only [ccsnTotalLen, ccsnBodies, framed, List.length_flatten, List.map_append, List.map_cons, List.sum_append,
    List.sum_cons, List.map_map, Function.comp_def, Except.toOption, Option.elim_some]
  cases checkpoint.leadershipTransfer <;> simp <;> omega

end Checkpoint

variable {left right : RaftNode}

theorem sum_filterMap {α β : Type} (items : List α) (pick : α → Option β) (size : β → Nat) :
    ((items.filterMap pick).map size).sum = (items.map fun item => (pick item).elim 0 size).sum := by
  induction items with
  | nil => rfl
  | cons item rest ih =>
    rw [List.filterMap_cons, List.map_cons, List.sum_cons, ← ih]
    cases pick item with
    | none => exact (Nat.zero_add _).symm
    | some value => exact List.sum_cons

def storedValues (store : Store) : BTreeMap Bytes Bytes := store.live.map fun _ entry => entry.2

theorem storedValues_congr {store other : Store} (same : ∀ key, other.get key = store.get key) :
    storedValues other = storedValues store := by
  apply Std.ExtTreeMap.ext_getElem?
  intro key
  unfold storedValues
  rw [Std.ExtTreeMap.getElem?_map, Std.ExtTreeMap.getElem?_map]
  exact same key

theorem entryBytes_eq (kv : Kv) (at_ : Nat) : entryBytes (logicalSnapshot kv at_) =
      total (fun key value =>
        if kv.ttl[key]?.all fun deadline => decide (deadline > at_) then 34 + key.length + value.length else 0)
        (storedValues kv.store) := by
  unfold entryBytes logicalSnapshot total storedValues
  rw [sum_filterMap, Std.ExtTreeMap.toList_map, List.map_map]
  congr 1
  apply List.map_congr_left
  rintro ⟨key, sequence, value⟩ _
  dsimp only [Function.comp]
  split
  · cases kv.ttl[key]? <;>
      simp [Checkpoint.recordFrame, Checkpoint.entryBody, Enc.u32, Enc.u8, Enc.u64, Enc.bytes, leBytes] <;> omega
  · rfl

theorem stateBytes_congr {kv other : Kv} (sessions : SessionTable)
    (store : ∀ key, other.store.get key = kv.store.get key) (ttl : other.ttl = kv.ttl)
    (time : other.lastLeaderTime = kv.lastLeaderTime) : stateBytes other sessions = stateBytes kv sessions := by
  unfold stateBytes
  rw [entryBytes_eq, entryBytes_eq, storedValues_congr store, ttl, time]

theorem recordBytes_ge (key : SessionKey) (record : SessionRecord) : 42 ≤ recordBytes key record := by
  simp [recordBytes, Checkpoint.recordFrame, Checkpoint.recordBody, Enc.u32, Enc.u8, Enc.u64, Enc.bytes, leBytes]
  omega

theorem tombstoneBytes_eq (key : SessionKey) (tombstone : SessionTombstone) : tombstoneBytes key tombstone = 34 := by
  simp [tombstoneBytes, Checkpoint.recordFrame, Checkpoint.tombstoneBody, Enc.u32, Enc.u8, Enc.u64, leBytes]

theorem expireOne_bytes (policy : ClusterPolicy) (upTo : Nat) (table : SessionTable)
    (entry : Nat × SessionKey × Bool) : sessionBytes (table.expireOne policy upTo entry) ≤ sessionBytes table := by
  obtain ⟨idleDeadline, key, tombstone⟩ := entry
  unfold SessionTable.expireOne sessionBytes
  dsimp only
  split
  · exact Nat.add_le_add_left (total_erase_le ..) _
  cases held : table.records[key]? with
  | none => exact le_rfl
  | some record =>
    have gone : total recordBytes table.records = _ := total_erase held
    have fewer : total tombstoneBytes _ ≤ _ := total_erase_le table.tombstones key
    have large := recordBytes_ge key record
    dsimp only
    split
    · -- the tombstone that comes in is smaller than the record that goes
      dsimp only
      rw [total_insert, tombstoneBytes_eq]
      omega
    · dsimp only
      omega

theorem expireDue_bytes (policy : ClusterPolicy) (upTo maxItems : Nat) (pinned : Option SessionKey)
    (table : SessionTable) : sessionBytes (table.expireDue policy upTo maxItems pinned) ≤ sessionBytes table := by
  unfold SessionTable.expireDue
  generalize table.dueEntries policy upTo maxItems pinned = due
  induction due generalizing table with
  | nil => exact le_rfl
  | cons entry rest ih => exact (ih _).trans (expireOne_bytes policy upTo table entry)

def tried (policy : ClusterPolicy) (kv : Kv) (sessions : SessionTable) (proposal : Proposal) :
    Kv × SessionTable :=
  let mutate := fun kv : Kv => kv.applyCommandOnlyWithBatchLimits proposal.index proposal.term proposal.command
    proposal.leaderTime (batchLimits policy)
  let (sessions, kv, _) := match proposal.session with
    | some (key, sequence) =>
      sessions.applyUser policy key sequence proposal.canonical proposal.leaderTime mutate kv
    | none =>
      let (kv, outcome) := mutate kv
      (sessions, kv, outcome)
  (if kv.appliedIndex < proposal.index then kv.markApplied proposal.index proposal.term proposal.leaderTime
    else kv, sessions)

def triedBytes (policy : ClusterPolicy) (kv : Kv) (sessions : SessionTable) (proposal : Proposal) : Nat :=
  stateBytes (tried policy kv sessions proposal).1 (tried policy kv sessions proposal).2

/-- A command costs what its trial says or less: only the expiry of sessions is not
tried. -/
theorem applyProposal_bytes (policy : ClusterPolicy) (pinned : Option SessionKey) (kv : Kv)
    (sessions : SessionTable) (proposal : Proposal) :
    (applyProposal policy pinned kv sessions proposal).1 = (tried policy kv sessions proposal).1 ∧
      sessionBytes (applyProposal policy pinned kv sessions proposal).2.1 ≤
        sessionBytes (tried policy kv sessions proposal).2 := by
  unfold applyProposal tried
  dsimp only
  refine ⟨rfl, ?_⟩
  split
  · exact expireDue_bytes ..
  · exact le_rfl

theorem kvField_reads {α : Type} {decoder : Decode α} {chunk : Bytes} {value : α}
    (reads : Dec.Reads decoder chunk value) : Dec.Reads (kvField decoder) chunk value := reads.mapError _

theorem kvRun_reads {α : Type} {decoder : KvDecode α} {chunk : Bytes} {value : α}
    (reads : Dec.Reads decoder chunk value) : decoder.run chunk = .ok value := by
  have ended : kvField Dec.finish ⟨chunk, chunk.length⟩ = .ok ((), ⟨chunk, chunk.length⟩) := by
    unfold kvField Dec.finish
    rw [if_pos rfl]
    rfl
  unfold KvDecode.run
  rw [reads.whole]
  dsimp only [bind, Except.bind]
  rw [ended]
  rfl

theorem AppEnvelope.decodeSession_reads {session : Option (SessionKey × Nat)}
    (proper : ∀ key sequence, session = some (key, sequence) →
      SessionKey.new key.namespaceCode key.client = .ok key ∧ sequence ≠ 0 ∧ sequence < 2 ^ 64) :
    Dec.Reads AppEnvelope.decodeSession (ConfigEnvelope.encodeSession session) session := by
  cases session with
  | none =>
    intro before after
    exact ((kvField_reads (Dec.Reads.u8 0)).bind ((kvField_reads (Dec.Reads.u8 0)).bind
      ((kvField_reads (Dec.Reads.u64 (Nat.two_pow_pos 64))).bind
        ((kvField_reads (Dec.Reads.u64 (Nat.two_pow_pos 64))).close (if_pos ⟨rfl, rfl, rfl, rfl⟩))))) before after
  | some entry =>
    obtain ⟨⟨code, client⟩, sequence⟩ := entry
    obtain ⟨named, counted, fits⟩ := proper ⟨code, client⟩ sequence rfl
    have back : UInt64.ofNat client.toNat = client := UInt64.ofNat_toNat
    have fields : ConfigEnvelope.encodeSession (some (⟨code, client⟩, sequence)) =
        Enc.u8 1 ++ (Enc.u8 code ++ (Enc.u64 client.toNat ++ Enc.u64 sequence)) := by
      simp [ConfigEnvelope.encodeSession]
    rw [fields]
    apply (kvField_reads (Dec.Reads.u8 1)).bind
    apply (kvField_reads (Dec.Reads.u8 _)).bind
    apply (kvField_reads (Dec.Reads.u64 client.toNat_lt)).bind
    apply (kvField_reads (Dec.Reads.u64 fits)).close
    rw [if_neg fun none => absurd none.1 (by decide), if_pos ⟨rfl, counted⟩, back, named]

theorem AppEnvelope.decode_encode {envelope : AppEnvelope} {command : KvCommand}
    (proper : ∀ key sequence, envelope.session = some (key, sequence) →
      SessionKey.new key.namespaceCode key.client = .ok key ∧ sequence ≠ 0 ∧ sequence < 2 ^ 64)
    (timed : envelope.leaderTime < 2 ^ 64) (short : envelope.command.length ≤ maxCodecBytes)
    (parsed : decodeCommand envelope.command = .ok command) : AppEnvelope.decode envelope.encode = .ok envelope := by
  have read : Dec.Reads AppEnvelope.decodeBody
      (Enc.header appEnvelopeMagic appEnvelopeVersion ++ (ConfigEnvelope.encodeSession envelope.session ++
        (Enc.u64 envelope.leaderTime ++ Enc.bytes envelope.command))) envelope := by
    unfold AppEnvelope.decodeBody
    apply (kvField_reads (Dec.Reads.header (by decide) (by decide))).bind
    apply (decodeSession_reads proper).bind
    apply (kvField_reads (Dec.Reads.u64 timed)).bind
    apply (kvField_reads (Dec.Reads.bytesField short)).close
    rfl
  have whole : AppEnvelope.decodeBody.run _ = .ok envelope := kvRun_reads read
  unfold AppEnvelope.decode AppEnvelope.encode
  rw [openRecord_sealRecord]
  simp only [List.append_assoc]
  rw [whole]
  change (decodeCommand envelope.command >>= fun _ => pure envelope) = _
  rw [parsed]
  rfl

def appliedTo (policy : ClusterPolicy) (working : Working) (entry : Entry) : Option Working :=
  (carryEntry policy working entry).toOption.bind fun carried =>
    (sealEntry ⟨∅, ∅⟩ working entry carried).toOption.map fun prepared => prepared.next

section Applied
variable {policy : ClusterPolicy} {working next : Working} {entry : Entry} {carried : Carried}

variable {prepared : PreparedCommittedEntry} {routes : ReplyRoutes}

theorem sealEntry_next (other : ReplyRoutes) (done : sealEntry routes working entry carried = .ok prepared) :
    (sealEntry other working entry carried).toOption.map (fun prepared => prepared.next) = some prepared.next := by
  obtain ⟨narrow, walFrame, kv, prepares, rfl⟩ := sealEntry_ok_iff.mp done
  rw [sealEntry_ok_iff.mpr ⟨narrow, walFrame, kv, prepares, rfl⟩]
  rfl

theorem sealEntry_bytes (done : sealEntry routes working entry carried = .ok prepared) :
    prepared.next.sessions = carried.next.sessions ∧
      ∀ sessions, stateBytes prepared.next.kv sessions = stateBytes carried.next.kv sessions := by
  obtain ⟨-, walFrame, kv, prepares, rfl⟩ := sealEntry_ok_iff.mp done
  obtain ⟨store, applied, -, rfl⟩ := Kv.prepareApply_ok prepares
  exact ⟨rfl, fun sessions => stateBytes_congr sessions (Store.applyBatch_get rfl applied) rfl rfl⟩

theorem appliedTo_of_prepared {left : ReplyRoutes}
    (done : prepareCommittedEntries policy routes working [entry] = (left, .ok [prepared])) :
    appliedTo policy working entry = some prepared.next ∧
      ∃ carried, carryEntry policy working entry = .ok carried ∧
        sealEntry routes working entry carried = .ok prepared := by
  obtain ⟨carried, first, others, carries, sealed, -, same⟩ := prepareCommittedEntries_cons done
  obtain rfl := (List.cons.inj same).1
  refine ⟨?_, carried, carries, sealed⟩
  unfold appliedTo
  rw [carries]
  exact sealEntry_next _ sealed

theorem carryEntry_app (app : entry.kind.isApp = true) :
    carryEntry policy working entry = carryApp policy working entry := by
  unfold carryEntry
  cases kind : entry.kind with
  | app | appV3 => rfl
  | _ =>
    rw [kind] at app
    cases app

theorem appliedTo_bytes (app : entry.kind.isApp = true) (done : appliedTo policy working entry = some next) :
    ∃ proposal, checkProposal policy working.raft.activeFeatures entry = .ok proposal ∧
      stateBytes next.kv next.sessions ≤ triedBytes policy working.kv working.sessions proposal := by
  unfold appliedTo at done
  rw [carryEntry_app app] at done
  cases carries : carryApp policy working entry with
  | error halt =>
    rw [carries] at done
    cases done
  | ok carried =>
    rw [carries] at done
    cases sealed : sealEntry ⟨∅, ∅⟩ working entry carried with
    | error halt =>
      simp only [Except.toOption, Option.bind_some, sealed] at done
      cases done
    | ok prepared =>
      simp only [Except.toOption, Option.bind_some, sealed, Option.map_some, Option.some.injEq] at done
      subst done
      obtain ⟨sessions, bytes⟩ := sealEntry_bytes sealed
      unfold carryApp at carries
      cases checked : checkProposal policy working.raft.activeFeatures entry with
      | error halt =>
        rw [checked] at carries
        cases carries
      | ok proposal =>
        rw [checked] at carries
        obtain ⟨kv, table⟩ := applyProposal_bytes policy (pinnedAdminSession working.raft) working.kv
          working.sessions proposal
        simp only [bind, Except.bind] at carries
        split at carries
        · cases carries
        · cases carries
        · obtain rfl := Except.ok.inj carries
          refine ⟨proposal, rfl, ?_⟩
          rw [bytes, sessions]
          dsimp only
          rw [kv]
          exact Nat.add_le_add_left table _

theorem carryApp_raft (raft : RaftNode) (features : raft.activeFeatures = working.raft.activeFeatures)
    (pinned : pinnedAdminSession raft = pinnedAdminSession working.raft)
    (done : carryApp policy working entry = .ok carried) :
    carryApp policy { working with raft } entry = .ok { carried with next := { carried.next with raft } } := by
  unfold carryApp at done ⊢
  dsimp only at done ⊢
  rw [features, pinned]
  cases checked : checkProposal policy working.raft.activeFeatures entry with
  | error halt =>
    rw [checked] at done
    cases done
  | ok proposal =>
    rw [checked] at done
    simp only [bind, Except.bind] at done ⊢
    generalize applyProposal policy (pinnedAdminSession working.raft) working.kv working.sessions proposal =
      attempt at done ⊢
    obtain ⟨kv, sessions, _ | _ | reply⟩ := attempt
    · obtain rfl := Except.ok.inj done
      rfl
    · cases done
    · cases done

theorem sealEntry_raft (raft : RaftNode) (done : sealEntry routes working entry carried = .ok prepared) :
    sealEntry routes { working with raft } entry { carried with next := { carried.next with raft } } =
      .ok { prepared with next := { prepared.next with raft } } := by
  obtain ⟨narrow, walFrame, kv, prepares, rfl⟩ := sealEntry_ok_iff.mp done
  exact sealEntry_ok_iff.mpr ⟨narrow, walFrame, kv, prepares, rfl⟩

theorem appliedTo_raft (app : entry.kind.isApp = true) (raft : RaftNode)
    (features : raft.activeFeatures = working.raft.activeFeatures)
    (pinned : pinnedAdminSession raft = pinnedAdminSession working.raft)
    (done : appliedTo policy working entry = some next) :
    appliedTo policy { working with raft } entry = some { next with raft } := by
  unfold appliedTo at done ⊢
  rw [carryEntry_app app] at done ⊢
  cases carries : carryApp policy working entry with
  | error halt =>
    rw [carries] at done
    cases done
  | ok carried =>
    rw [carries] at done
    rw [carryApp_raft raft features pinned carries]
    simp only [Except.toOption, Option.bind_some] at done ⊢
    cases sealed : sealEntry ⟨∅, ∅⟩ working entry carried with
    | error halt =>
      rw [sealed] at done
      cases done
    | ok prepared =>
      rw [sealed] at done
      rw [sealEntry_raft raft sealed]
      obtain rfl := Option.some.inj done
      rfl

end Applied

structure SameView (left right : RaftNode) : Prop where
  id : right.id = left.id
  voters : right.voters = left.voters
  learners : right.learners = left.learners
  joint : right.joint = left.joint
  jointEnterIndex : right.jointEnterIndex = left.jointEnterIndex
  addresses : right.addresses = left.addresses
  activeFeatures : right.activeFeatures = left.activeFeatures
  retiringPeers : right.retiringPeers = left.retiringPeers

theorem SameView.replayOperation (same : SameView left right) (index : Nat) (operation : ConfigOperation) :
    SameView (left.replayOperation index operation) (right.replayOperation index operation) := by
  obtain ⟨id, voters, learners, joint, jointEnterIndex, addresses, activeFeatures, retiringPeers⟩ := same
  cases operation with
  | leaveJoint enterIndex =>
    simp only [RaftNode.replayOperation, jointEnterIndex]
    by_cases leaves : left.jointEnterIndex = some enterIndex
    · simp only [leaves, if_true, joint]
      cases left.joint <;> constructor <;>
        simp only [RaftNode.retire, id, voters, learners, joint, addresses, activeFeatures, retiringPeers]
    · simp only [leaves, if_false]
      exact ⟨id, voters, learners, joint, jointEnterIndex, addresses, activeFeatures, retiringPeers⟩
  | _ => constructor <;> simp only [RaftNode.replayOperation, id, voters, learners, joint, jointEnterIndex, addresses,
      activeFeatures, retiringPeers]

theorem SameView.replayEntries (same : SameView left right) (entries : List Entry) :
    SameView (left.replayEntries entries) (right.replayEntries entries) := by
  induction entries generalizing left right with
  | nil => exact same
  | cons entry rest ih =>
    unfold RaftNode.replayEntries
    cases entry.envelope? with
    | none => exact same
    | some envelope => exact ih (same.replayOperation _ _)

/-- The cluster as its log and base give it is the same; terms, indices and contacts may differ. -/
structure SameCluster (raft later : RaftNode) : Prop where
  id : later.id = raft.id
  voters : later.baseVoters = raft.baseVoters
  learners : later.baseLearners = raft.baseLearners
  joint : later.baseJoint = raft.baseJoint
  jointEnterIndex : later.baseJointEnterIndex = raft.baseJointEnterIndex
  addresses : later.baseAddresses = raft.baseAddresses
  baseFeatures : later.baseActiveFeatures = raft.baseActiveFeatures
  features : later.activeFeatures = raft.activeFeatures
  transfer : later.transfer = raft.transfer

theorem resyncTransferFinishing_reset (raft : RaftNode) :
    SameView raft.resetMembership raft.resyncTransferFinishing.resetMembership := by
  unfold RaftNode.resyncTransferFinishing
  split
  · exact ⟨rfl, rfl, rfl, rfl, rfl, rfl, rfl, rfl⟩
  · dsimp only
    split <;> exact ⟨rfl, rfl, rfl, rfl, rfl, rfl, rfl, rfl⟩

theorem SameView.trans {middle : RaftNode} (first : SameView left middle) (second : SameView middle right) :
    SameView left right :=
  ⟨second.id.trans first.id, second.voters.trans first.voters, second.learners.trans first.learners,
    second.joint.trans first.joint, second.jointEnterIndex.trans first.jointEnterIndex,
    second.addresses.trans first.addresses, second.activeFeatures.trans first.activeFeatures,
    second.retiringPeers.trans first.retiringPeers⟩

theorem SameView.symm (same : SameView left right) : SameView right left :=
  ⟨same.id.symm, same.voters.symm, same.learners.symm, same.joint.symm, same.jointEnterIndex.symm,
    same.addresses.symm, same.activeFeatures.symm, same.retiringPeers.symm⟩

theorem SameView.membershipState (same : SameView left right) : right.membershipState = left.membershipState := by
  unfold RaftNode.membershipState
  rw [same.voters, same.learners, same.joint, same.jointEnterIndex, same.addresses, same.activeFeatures]

theorem membershipStateAt_congr {raft later : RaftNode} (same : SameCluster raft later) {low high : Nat}
    (configs : (later.log.filter fun entry => decide (entry.index ≤ high)).filter (fun entry => entry.kind.isConfig) =
      (raft.log.filter fun entry => decide (entry.index ≤ low)).filter fun entry => entry.kind.isConfig) :
    later.membershipStateAt high = raft.membershipStateAt low := by
  unfold RaftNode.membershipStateAt RaftNode.rebuildMembershipFromLog
  dsimp only
  have resynced (part other : RaftNode) (reset : SameView part.resetMembership other.resetMembership) :
      SameView part.resyncTransferFinishing.resetMembership other.resyncTransferFinishing.resetMembership :=
    ((resyncTransferFinishing_reset part).symm.trans reset).trans (resyncTransferFinishing_reset other)
  rw [configs]
  have view := (resynced { raft with log := raft.log.filter fun entry => decide (entry.index ≤ low) }
    { later with log := later.log.filter fun entry => decide (entry.index ≤ high) }
    ⟨same.id, same.voters, same.learners, same.joint, same.jointEnterIndex, same.addresses, same.baseFeatures,
      rfl⟩).replayEntries
    ((raft.log.filter fun entry => decide (entry.index ≤ low)).filter fun entry => entry.kind.isConfig)
  exact SameView.membershipState ⟨view.id, view.voters, view.learners, view.joint, view.jointEnterIndex,
    view.addresses, view.activeFeatures, view.retiringPeers⟩

end CrashCourse.Cluster
