import CrashCourse.Cluster.Charges
import CrashCourse.Cluster.Reservations

/-!
The quota of logical bytes. A leader reserves what a trial on its present state says; that
is enough if the command costs no more on the state that the commands before it leave.
-/

namespace CrashCourse.Cluster
open CrashCourse.Core CrashCourse.KeyValue CrashCourse.Raft

namespace Node
variable {node next : Node}

def proposalFor (node : Node) (command : KvCommand) (session : Option (SessionKey × Nat)) (canonical : Bytes)
    (leaderTime : Nat) : Proposal where
  index := saturatingAdd node.raft.lastIndex 1
  term := node.raft.hardState.term
  session := session
  leaderTime := leaderTime
  command := command
  canonical := canonical

def frame (node : Node) : Nat := (node.checkpointOf node.kv node.sessions).frameBytes

variable {charge leaderTime : Nat} {session : Option (SessionKey × Nat)} {admission : Admission} {raft : RaftNode}
  {policy : ClusterPolicy} {share : Nat → Nat} {entry : Entry}

theorem logicalStateCharge_ok (done : node.logicalStateCharge = .ok charge) :
    charge = node.frame + stateBytes node.kv node.sessions := by
  unfold logicalStateCharge at done
  cases started : CcsnStreamEncoder.new (node.checkpointOf node.kv node.sessions) with
  | error error =>
    rw [started] at done
    cases done
  | ok encoder =>
    rw [started] at done
    obtain rfl := Except.ok.inj done
    rw [Checkpoint.totalLen_eq started, Nat.add_assoc]
    rfl

theorem projectedLogicalStateCharge_ok {command : KvCommand} {canonical : Bytes}
    (done : node.projectedLogicalStateCharge command session canonical leaderTime = .ok charge) :
    charge = node.frame + triedBytes node.config.policy node.kv node.sessions
      (node.proposalFor command session canonical leaderTime) := by
  unfold projectedLogicalStateCharge at done
  dsimp only at done
  split at done
  · cases done
  split at done
  next encoder started =>
    obtain rfl := Except.ok.inj done
    rw [Checkpoint.totalLen_eq started, Nat.add_assoc]
    rfl
  · cases done

structure Checked (node : Node) (session : Option (SessionKey × Nat)) (command : Bytes) (leaderTime : Nat)
    (admission : Admission) : Prop where
  parsed : decodeCommand command = .ok admission.command
  short : command.length ≤ node.config.policy.maxCommandBytes
  named : ∀ key sequence, session = some (key, sequence) →
    key.namespaceCode = SessionNamespace.userRequest.code ∧ sequence ≠ 0
  charged : ∃ projected,
    node.projectedLogicalStateCharge admission.command session command leaderTime = .ok projected ∧
    admission.positiveDelta = projected - node.logicalStateCharge.toOption.getD 0
  fits : saturatingAdd (saturatingAdd (node.logicalStateCharge.toOption.getD 0)
      (saturatingSum (node.logicalReservations.toList.map Prod.snd))) admission.positiveDelta ≤
    node.config.policy.maxLiveLogicalBytes

theorem checkSubmit_ok {command : Bytes} (done : node.checkSubmit session command leaderTime = .ok admission) :
    Checked node session command leaderTime admission := by
  unfold checkSubmit at done
  dsimp only at done
  obtain ⟨-, done⟩ := guard_ok done
  obtain ⟨short, done⟩ := guard_ok done
  obtain ⟨parsed, decoded, done⟩ := bind_ok_iff.mp done
  obtain ⟨-, -, done⟩ := bind_ok_iff.mp done
  obtain ⟨-, -, done⟩ := bind_ok_iff.mp done
  obtain ⟨named, done⟩ := guard_ok done
  obtain ⟨-, done⟩ := guard_ok done
  obtain ⟨-, done⟩ := guard_ok done
  have decodes : decodeCommand command = .ok parsed := by
    cases found : decodeCommand command with
    | error error =>
      rw [found] at decoded
      cases decoded
    | ok value =>
      rw [found] at decoded
      exact congrArg _ (Except.ok.inj decoded)
  rcases session with _ | ⟨key, sequence⟩
  -- the reservation of the session is the only difference between the two cases
  all_goals
    dsimp only at done
    obtain ⟨reservation, -, done⟩ := bind_ok_iff.mp done
    obtain ⟨-, done⟩ := guard_ok done
    obtain ⟨projected, trial, done⟩ := bind_ok_iff.mp done
    obtain ⟨fits, done⟩ := guard_ok done
    obtain rfl := Except.ok.inj done
    refine ⟨decodes, not_lt.mp short, ?_, ⟨projected, trial, rfl⟩, not_lt.mp fits⟩
  · rintro _ _ ⟨⟩
  · rintro _ _ ⟨⟩
    simpa using named

structure Write where
  client : ClientId
  request : Nat
  session : Option (SessionKey × Nat)
  command : Bytes
  leaderTime : Nat
  timed : leaderTime < 2 ^ 64
  counted : ∀ key sequence, session = some (key, sequence) → key.client ≠ 0 ∧ sequence < 2 ^ 64

def submit (node : Node) (write : Write) : NodeAttempt :=
  node.submitClient write.client write.request write.session write.command write.leaderTime

def backlog (node : Node) : List Entry :=
  node.raft.log.filter fun entry => decide (entry.index > node.kv.appliedIndex)

def ahead (node : Node) : Option Working :=
  node.backlog.foldlM (appliedTo node.config.policy) node.working

/-- The checkpoint of the present state has a length, and the write grows the state
that the writes before it leave by no more than the present one. -/
def fair (node : Node) (write : Write) : Bool :=
  node.logicalStateCharge.isOk &&
    match decodeCommand write.command with
    | .error _ => true
    | .ok command =>
      let proposal := node.proposalFor command write.session write.command write.leaderTime
      node.ahead.all fun working =>
        decide (triedBytes node.config.policy working.kv working.sessions proposal
            - stateBytes working.kv working.sessions ≤
          triedBytes node.config.policy node.kv node.sessions proposal - stateBytes node.kv node.sessions)

/-- A leader takes client writes only: it admits a write while nothing waits for
publication, Raft goes on with the log as it is, and the next entry handed out is
prepared and published. -/
inductive Flow (node : Node) : Option Write → Node → Prop
  | take {next : Node} {out : List NodeEffect} (write : Write)
      (idle : node.kv.appliedIndex = node.raft.appliedIndex) (room : node.raft.lastIndex < u64Max)
      (taken : node.submit write = (next, .ok out)) : Flow node (some write) next
  | replicate {raft : RaftNode} (same : SameCluster node.raft raft) (log : raft.log = node.raft.log)
      (tracked : raft.Tracked) (last : raft.lastIndex = node.raft.lastIndex)
      (onward : node.raft.appliedIndex ≤ raft.appliedIndex) : Flow node none { node with raft }
  | publish {entry : Entry} {routes : ReplyRoutes} {prepared : PreparedCommittedEntry}
      (logged : entry ∈ node.raft.log) (following : entry.index = node.kv.appliedIndex + 1)
      (handed : entry.index ≤ node.raft.appliedIndex)
      (done : prepareCommittedEntries node.config.policy node.routes node.working [entry] =
        (routes, .ok [prepared])) :
      Flow node none (({ node with routes } : Node).publishEntry prepared)

inductive FairRun (node : Node) : Node → Prop
  | refl : FairRun node node
  | step {middle last : Node} {write : Option Write} (run : FairRun node middle) (flow : Flow middle write last)
      (fair : ∀ admitted, write = some admitted → middle.fair admitted = true) : FairRun node last

/-- A leader whose log is applied and whose state is within its quota. -/
structure Settled (node : Node) : Prop where
  valid : node.config.policy.validate = .ok ()
  tracked : node.raft.Tracked
  synced : Synced node.kv
  handed : node.raft.appliedIndex = node.raft.lastIndex
  applied : node.kv.appliedIndex = node.raft.lastIndex
  charged : ∃ charge, node.logicalStateCharge = .ok charge ∧ charge ≤ node.config.policy.maxLiveLogicalBytes

theorem proposeWithKind_shape {after : RaftNode} {payload : Bytes} {kind : EntryKind} {effects : List RaftEffect}
    (done : raft.proposeWithKind payload kind = (after, .ok effects)) :
    (∃ entries rest, effects = .persistEntries entries :: rest) ∧ raft.transfer = none ∧ SameCluster raft after := by
  unfold RaftNode.proposeWithKind at done
  split at done
  · cases (Prod.mk.inj done).2
  split at done
  · cases (Prod.mk.inj done).2
  next free =>
    dsimp only at done
    split at done
    · cases (Prod.mk.inj done).2
    obtain ⟨rfl, same⟩ := Prod.mk.inj done
    obtain rfl := Except.ok.inj same
    refine ⟨⟨_, _, rfl⟩, by simpa using free, ?_⟩
    unfold RaftNode.advanceCommit
    split <;> exact ⟨rfl, rfl, rfl, rfl, rfl, rfl, rfl, rfl, rfl⟩

theorem proposeCommand_shape {command : KvCommand} {envelope : Bytes} {effects : List RaftEffect}
    (done : node.proposeCommand command envelope = (raft, .ok effects)) :
    (∃ entries rest, effects = .persistEntries entries :: rest) ∧ node.raft.transfer = none ∧
      SameCluster node.raft raft := by
  unfold proposeCommand at done
  split at done
  · unfold RaftNode.proposeV3Batch at done
    split at done
    · cases (Prod.mk.inj done).2
    · exact proposeWithKind_shape done
  · exact proposeWithKind_shape done

structure Taken (node : Node) (write : Write) (admission : Admission) (next : Node) : Prop where
  checked : node.checkSubmit write.session write.command write.leaderTime = .ok admission
  proposed : ∃ effects, node.proposeCommand admission.command
    (AppEnvelope.encode ⟨write.session, write.leaderTime, write.command⟩) = (next.raft, .ok effects)
  config : next.config = node.config
  kv : next.kv = node.kv
  sessions : next.sessions = node.sessions
  reserved : next.logicalReservations = if admission.positiveDelta = 0 then node.logicalReservations
    else node.logicalReservations.insert next.raft.lastIndex admission.positiveDelta

variable {write : Write}

theorem submit_taken {out : List NodeEffect} (taken : node.submit write = (next, .ok out)) :
    ∃ admission, Taken node write admission next := by
  unfold submit submitClient at taken
  cases checked : node.checkSubmit write.session write.command write.leaderTime with
  | error halt =>
    rw [checked] at taken
    cases (Prod.mk.inj taken).2
  | ok admission =>
    rw [checked] at taken
    dsimp only at taken
    rcases proposed : node.proposeCommand admission.command
      (AppEnvelope.encode ⟨write.session, write.leaderTime, write.command⟩) with ⟨raft, error | effects⟩
    · rw [proposed] at taken
      cases (Prod.mk.inj taken).2
    rw [proposed] at taken
    obtain ⟨⟨entries, rest, rfl⟩, -⟩ := proposeCommand_shape proposed
    have leads := (proposeCommand_continues proposed).2.1
    let reserved := ({ node with raft } : Node).reserve (write.client, write.request) admission
    have kept : reserved.dropRoutes = reserved := dropRoutes_leader leads
    -- the entry has to be written first, so the other effects wait
    have mapped : reserved.mapEffects (.persistEntries entries :: rest) =
        ((reserved.dropRoutes.await (.raft rest)).drain.1, .ok ([.persistEntries entries] ++
          (reserved.dropRoutes.await (.raft rest)).drain.2)) := rfl
    obtain rfl : (reserved.dropRoutes.await (.raft rest)).drain.1 = next :=
      (Prod.mk.inj (mapped.symm.trans taken)).1
    obtain ⟨same, kv, sessions, config, -, -, logical, -⟩ :=
      drain_books (reserved.dropRoutes.await (.raft rest))
    rw [kept] at same kv sessions config logical
    rw [kept]
    have raft' : ((reserved.await (.raft rest)).drain.1).raft = raft := same
    refine ⟨admission, checked, ⟨_, by rw [raft']; exact proposed⟩, config, kv, sessions, ?_⟩
    rw [logical, raft']
    rfl

/-- Each entry grows the state it finds by its share at most. -/
def Paid (policy : ClusterPolicy) (features : UInt64) (share : Nat → Nat) : Kv → SessionTable → List Entry → Prop
  | _, _, [] => True
  | kv, sessions, entry :: rest => ∀ raft reached, raft.activeFeatures = features →
      pinnedAdminSession raft = none → appliedTo policy ⟨kv, sessions, raft⟩ entry = some reached →
        stateBytes reached.kv reached.sessions ≤ stateBytes kv sessions + share entry.index ∧
          Paid policy features share reached.kv reached.sessions rest

theorem Paid.congr {features : UInt64} {other : Nat → Nat} {kv : Kv} {sessions : SessionTable} {entries : List Entry}
    (paid : Paid policy features share kv sessions entries)
    (same : ∀ entry ∈ entries, other entry.index = share entry.index) :
    Paid policy features other kv sessions entries := by
  induction entries generalizing kv sessions with
  | nil => trivial
  | cons entry rest ih =>
    intro raft reached active unpinned done
    obtain ⟨costs, later⟩ := paid raft reached active unpinned done
    rw [same entry List.mem_cons_self]
    exact ⟨costs, ih later fun other member => same other (List.mem_cons_of_mem _ member)⟩

theorem Paid.snoc {kv : Kv} {sessions : SessionTable} {entries : List Entry}
    (unpinned : pinnedAdminSession raft = none) (apps : ∀ other ∈ entries, other.kind.isApp = true)
    (app : entry.kind.isApp = true) (paid : Paid policy raft.activeFeatures share kv sessions entries)
    (costs : ∀ reached, entries.foldlM (appliedTo policy) ⟨kv, sessions, raft⟩ = some reached →
      ∀ proposal, checkProposal policy raft.activeFeatures entry = .ok proposal →
        triedBytes policy reached.kv reached.sessions proposal ≤
          stateBytes reached.kv reached.sessions + share entry.index) :
    Paid policy raft.activeFeatures share kv sessions (entries ++ [entry]) := by
  induction entries generalizing kv sessions with
  | nil =>
    intro other reached active _ done
    obtain ⟨proposal, checked, bytes⟩ := appliedTo_bytes app done
    rw [active] at checked
    exact ⟨bytes.trans (costs _ rfl proposal checked), trivial⟩
  | cons first rest ih =>
    intro other reached active free done
    obtain ⟨cost, later⟩ := paid other reached active free done
    refine ⟨cost, ih (fun entry member => apps entry (List.mem_cons_of_mem _ member)) later ?_⟩
    intro last leads
    apply costs
    -- the state does not depend on which Raft state applied the first entry
    have here := appliedTo_raft (apps first List.mem_cons_self) raft active.symm (unpinned.trans free.symm) done
    rw [List.foldlM_cons, here]
    exact leads

theorem backlog_publish {log : List Entry} {base applied : Nat} (numbered : Numbered base log) (logged : entry ∈ log)
    (following : entry.index = applied + 1) : (log.filter fun other => decide (other.index > applied)) =
      entry :: log.filter fun other => decide (other.index > entry.index) := by
  induction log generalizing base with
  | nil => cases logged
  | cons first rest ih =>
    have above : ∀ other ∈ rest, first.index < other.index := by
      intro other member
      rw [numbered.1]
      exact numbered.2.index_gt member
    rcases List.mem_cons.mp logged with rfl | later
    · have all (low : Nat) (under : low ≤ entry.index) :
          (rest.filter fun other => decide (other.index > low)) = rest := by
        apply List.filter_eq_self.mpr
        intro other member
        exact decide_eq_true (under.trans_lt (above other member))
      rw [List.filter_cons_of_pos (by simp [following]), List.filter_cons_of_neg (by simp), all _ le_rfl,
        all applied (by omega)]
    · have low := above entry later
      rw [List.filter_cons_of_neg (by simp; omega), List.filter_cons_of_neg (by simp; omega)]
      exact ih numbered.2 later

/-- The state and the shares of the backlog are within the quota, and what is not
handed out is still reserved. -/
structure Funded (share : Nat → Nat) (node : Node) : Prop where
  valid : node.config.policy.validate = .ok ()
  tracked : node.raft.Tracked
  synced : Synced node.kv
  behind : node.kv.appliedIndex ≤ node.raft.appliedIndex
  still : node.raft.transfer = none ∨ node.raft.appliedIndex = node.raft.lastIndex
  apps : ∀ entry ∈ node.raft.log, node.kv.appliedIndex < entry.index → entry.kind.isApp = true
  paid : Paid node.config.policy node.raft.activeFeatures share node.kv node.sessions node.backlog
  budget : node.frame + stateBytes node.kv node.sessions + (node.backlog.map fun entry => share entry.index).sum ≤
    node.config.policy.maxLiveLogicalBytes
  held : ∀ entry ∈ node.backlog, node.raft.appliedIndex < entry.index →
    share entry.index ≤ node.logicalReservations[entry.index]?.getD 0

theorem mem_backlog : entry ∈ node.backlog ↔ entry ∈ node.raft.log ∧ node.kv.appliedIndex < entry.index := by
  unfold backlog
  rw [List.mem_filter, decide_eq_true_eq]

theorem not_config (app : entry.kind.isApp = true) : entry.kind.isConfig = false := by
  cases kind : entry.kind <;> rw [kind] at app <;> first | rfl | cases app

theorem Funded.unpinned (funded : Funded share node) : pinnedAdminSession node.raft = none := by
  unfold pinnedAdminSession
  have none : (node.raft.log.filter fun entry =>
      decide (entry.index > node.raft.appliedIndex) && entry.kind.isConfig) = [] := by
    apply List.filter_eq_nil_iff.mpr
    intro entry member chosen
    rw [Bool.and_eq_true, decide_eq_true_eq] at chosen
    rw [not_config (funded.apps entry member (funded.behind.trans_lt chosen.1))] at chosen
    cases chosen.2
  rw [none]
  rfl

theorem frame_congr (config : next.config = node.config) (same : SameCluster node.raft next.raft)
    (onward : node.kv.appliedIndex ≤ next.kv.appliedIndex)
    (configs : (next.raft.log.filter fun entry => entry.kind.isConfig) =
      node.raft.log.filter fun entry => entry.kind.isConfig)
    (apps : ∀ entry ∈ node.raft.log, node.kv.appliedIndex < entry.index → entry.kind.isApp = true)
    (transfer : snapshotLeadershipTransfer next.raft = snapshotLeadershipTransfer node.raft) :
    next.frame = node.frame := by
  have membership : next.raft.membershipStateAt next.kv.appliedIndex =
      node.raft.membershipStateAt node.kv.appliedIndex := by
    apply membershipStateAt_congr same
    have swap (log : List Entry) (high : Nat) :
        (log.filter fun entry => decide (entry.index ≤ high)).filter (fun entry => entry.kind.isConfig) =
          (log.filter fun entry => entry.kind.isConfig).filter fun entry => decide (entry.index ≤ high) := by
      rw [List.filter_filter, List.filter_filter]
      exact List.filter_congr fun entry _ => Bool.and_comm ..
    rw [swap, swap, configs]
    apply List.filter_congr
    intro entry member
    obtain ⟨logged, config⟩ := List.mem_filter.mp member
    have low : entry.index ≤ node.kv.appliedIndex := by
      by_contra high
      rw [not_config (apps entry logged (not_le.mp high))] at config
      cases config
    rw [decide_eq_true low, decide_eq_true (low.trans onward)]
  unfold frame Checkpoint.frameBytes checkpointOf
  dsimp only
  rw [membership, transfer, config]

theorem Funded.replicated (funded : Funded share node) (same : SameCluster node.raft raft)
    (log : raft.log = node.raft.log) (tracked : raft.Tracked) (last : raft.lastIndex = node.raft.lastIndex)
    (onward : node.raft.appliedIndex ≤ raft.appliedIndex) : Funded share { node with raft } := by
  have still : raft.transfer = none ∨ raft.appliedIndex = raft.lastIndex := by
    rcases funded.still with none | all
    · exact .inl (same.transfer.trans none)
    · have within := tracked.applied.trans tracked.committed
      exact .inr (by omega)
  have transfer : snapshotLeadershipTransfer raft = snapshotLeadershipTransfer node.raft := by
    unfold snapshotLeadershipTransfer
    rw [same.transfer]
    rcases funded.still with none | all
    · rw [none]
    · have equal : raft.appliedIndex = node.raft.appliedIndex := by
        have within := tracked.applied.trans tracked.committed
        omega
      rw [equal]
  have backlog : ({ node with raft } : Node).backlog = node.backlog := by
    unfold Node.backlog
    rw [log]
  have frame : ({ node with raft } : Node).frame = node.frame :=
    frame_congr rfl same le_rfl (by rw [log]) funded.apps transfer
  constructor
  · exact funded.valid
  · exact tracked
  · exact funded.synced
  · exact funded.behind.trans onward
  · exact still
  · rw [log]
    exact funded.apps
  · rw [backlog, same.features]
    exact funded.paid
  · rw [backlog, frame]
    exact funded.budget
  · rw [backlog]
    exact fun entry member above => funded.held entry member (onward.trans_lt above)

theorem Funded.published (funded : Funded share node) {routes : ReplyRoutes} {prepared : PreparedCommittedEntry}
    (logged : entry ∈ node.raft.log) (following : entry.index = node.kv.appliedIndex + 1)
    (handed : entry.index ≤ node.raft.appliedIndex)
    (done : prepareCommittedEntries node.config.policy node.routes node.working [entry] = (routes, .ok [prepared])) :
    Funded share (({ node with routes } : Node).publishEntry prepared) := by
  obtain ⟨reached, carried, carries, sealed⟩ := appliedTo_of_prepared done
  obtain ⟨-, index, synced⟩ := sealEntry_applied funded.synced carries sealed
  have app := funded.apps entry logged (by omega)
  have raft : prepared.next.raft = node.raft := by
    rw [(sealEntry_ok sealed).1]
    rw [carryEntry_app app] at carries
    exact (carryApp_quiet carries).1
  have left : (({ node with routes } : Node).publishEntry prepared).backlog =
      node.raft.log.filter fun other => decide (other.index > entry.index) := by
    unfold Node.backlog publishEntry
    dsimp only
    rw [raft, index]
  have backlog : node.backlog = entry :: node.raft.log.filter fun other => decide (other.index > entry.index) :=
    backlog_publish funded.tracked.numbered logged following
  have all := funded.paid
  rw [backlog] at all
  obtain ⟨cost, paid⟩ := all node.raft prepared.next rfl funded.unpinned reached
  have cluster : SameCluster node.raft prepared.next.raft := by
    rw [raft]
    exact ⟨rfl, rfl, rfl, rfl, rfl, rfl, rfl, rfl, rfl⟩
  have frame : (({ node with routes } : Node).publishEntry prepared).frame = node.frame := by
    refine @frame_congr node (({ node with routes } : Node).publishEntry prepared) rfl cluster ?_ ?_ funded.apps ?_
    · change node.kv.appliedIndex ≤ prepared.next.kv.appliedIndex
      omega
    · exact congrArg (fun raft : RaftNode => raft.log.filter fun entry => entry.kind.isConfig) raft
    · exact congrArg snapshotLeadershipTransfer raft
  have budget := funded.budget
  rw [backlog, List.map_cons, List.sum_cons] at budget
  constructor
  · exact funded.valid
  · exact raft.symm ▸ funded.tracked
  · exact synced
  · change prepared.next.kv.appliedIndex ≤ prepared.next.raft.appliedIndex
    rw [index, raft]
    exact handed
  · exact raft.symm ▸ funded.still
  · change ∀ other ∈ prepared.next.raft.log, prepared.next.kv.appliedIndex < other.index → _
    rw [raft, index]
    exact fun other member above => funded.apps other member (by omega)
  · rw [left]
    change Paid _ prepared.next.raft.activeFeatures _ _ _ _
    rw [raft]
    exact paid
  · rw [left, frame]
    change node.frame + stateBytes prepared.next.kv prepared.next.sessions + _ ≤
      node.config.policy.maxLiveLogicalBytes
    omega
  · rw [left]
    intro other member above
    change share other.index ≤ ((node.logicalReservations.erase prepared.next.raft.appliedIndex)[other.index]?).getD 0
    change prepared.next.raft.appliedIndex < other.index at above
    rw [raft] at above ⊢
    rw [Std.ExtTreeMap.getElem?_erase, if_neg fun same => above.ne (Std.LawfulEqCmp.eq_of_compare same)]
    exact funded.held other (by rw [backlog]; exact List.mem_cons_of_mem _ member) above

theorem saturatingSum_eq (values : List Nat) : saturatingSum values = min values.sum u64Max := by
  simpa [saturatingSum] using foldl_saturatingAdd id values 0

theorem validate_bounds (valid : policy.validate = .ok ()) :
    policy.maxCommandBytes ≤ maxCodecBytes ∧ policy.maxLiveLogicalBytes < u64Max := by
  unfold ClusterPolicy.validate at valid
  split at valid
  next bounded =>
    simp only [ClusterPolicy.hardBounded, Bool.and_eq_true, decide_eq_true_eq] at bounded
    have small : (2 : Nat) ^ 40 < u64Max := by decide
    exact ⟨by omega, by omega⟩
  · cases valid

theorem checkProposal_taken {features : UInt64} {proposal : Proposal} (valid : node.config.policy.validate = .ok ())
    (checked : Checked node write.session write.command write.leaderTime admission)
    (room : node.raft.lastIndex < u64Max)
    (done : checkProposal node.config.policy features (node.entryFor admission.command
      (AppEnvelope.encode ⟨write.session, write.leaderTime, write.command⟩)) = .ok proposal) :
    proposal = node.proposalFor admission.command write.session write.command write.leaderTime := by
  have back : AppEnvelope.decode (AppEnvelope.encode ⟨write.session, write.leaderTime, write.command⟩) =
      .ok ⟨write.session, write.leaderTime, write.command⟩ := by
    refine AppEnvelope.decode_encode ?_ write.timed (checked.short.trans (validate_bounds valid).1) checked.parsed
    intro key sequence asked
    obtain ⟨namespaced, positive⟩ := checked.named key sequence asked
    obtain ⟨named, counted⟩ := write.counted key sequence asked
    refine ⟨?_, positive, counted⟩
    unfold SessionKey.new
    have low : ¬ SessionNamespace.userRequest.code > SessionNamespace.adminRequest.code := by decide
    rw [namespaced, if_neg (by simp [low, named]), ← namespaced]
  have decodes : decodeProposal (node.entryFor admission.command
      (AppEnvelope.encode ⟨write.session, write.leaderTime, write.command⟩)) =
        .ok (some ⟨write.session, write.leaderTime, write.command⟩) := by
    have app : (node.entryFor admission.command
        (AppEnvelope.encode ⟨write.session, write.leaderTime, write.command⟩)).kind.isApp = true := by
      unfold entryFor
      dsimp only
      split <;> rfl
    have filled : (AppEnvelope.encode ⟨write.session, write.leaderTime, write.command⟩).isEmpty = false := by
      cases shape : AppEnvelope.encode ⟨write.session, write.leaderTime, write.command⟩ with
      | cons => rfl
      | nil =>
        have length := AppEnvelope.encode_length ⟨write.session, write.leaderTime, write.command⟩
        rw [shape, List.length_nil] at length
        omega
    unfold decodeProposal
    change (if (!(node.entryFor _ _).kind.isApp || (AppEnvelope.encode _).isEmpty) = true then _
      else (AppEnvelope.decode (AppEnvelope.encode _)).map some) = _
    rw [app, filled, back]
    rfl
  have index : node.raft.lastIndex + 1 = saturatingAdd node.raft.lastIndex 1 := by
    unfold saturatingAdd
    omega
  unfold checkProposal at done
  simp only [decodes, checked.parsed, bind, Except.bind, pure, Except.pure, fail] at done
  repeat' split at done
  all_goals cases done
  unfold proposalFor
  rw [← index]
  rfl

theorem Checked.growth (checked : Checked node write.session write.command write.leaderTime admission)
    (valid : node.config.policy.validate = .ok ()) (measured : node.logicalStateCharge.isOk = true) :
    admission.positiveDelta =
        triedBytes node.config.policy node.kv node.sessions
          (node.proposalFor admission.command write.session write.command write.leaderTime)
          - stateBytes node.kv node.sessions ∧
      node.frame + stateBytes node.kv node.sessions + total (fun _ amount => amount) node.logicalReservations
        + admission.positiveDelta ≤ node.config.policy.maxLiveLogicalBytes := by
  cases charged : node.logicalStateCharge with
  | error error =>
    rw [charged] at measured
    cases measured
  | ok charge =>
    obtain ⟨projected, trial, delta⟩ := checked.charged
    have fits := checked.fits
    have bounded := (validate_bounds valid).2
    have now := logicalStateCharge_ok charged
    have later := projectedLogicalStateCharge_ok trial
    rw [charged] at delta fits
    simp only [Except.toOption, Option.getD_some] at delta fits
    rw [saturatingSum_eq] at fits
    unfold saturatingAdd at fits
    have reserved : (node.logicalReservations.toList.map Prod.snd).sum =
        total (fun _ amount => amount) node.logicalReservations := rfl
    rw [reserved] at fits
    constructor <;> omega

theorem Funded.admitted (funded : Funded share node) (taken : Taken node write admission next)
    (fair : node.fair write = true) (idle : node.kv.appliedIndex = node.raft.appliedIndex)
    (room : node.raft.lastIndex < u64Max) : ∃ share, Funded share next := by
  have checked := checkSubmit_ok taken.checked
  obtain ⟨effects, proposed⟩ := taken.proposed
  obtain ⟨-, free, cluster⟩ := proposeCommand_shape proposed
  obtain ⟨-, -, log, continues⟩ := proposeCommand_continues proposed
  unfold Node.fair at fair
  rw [checked.parsed, Bool.and_eq_true] at fair
  obtain ⟨measured, affordable⟩ := fair
  obtain ⟨delta, space⟩ := checked.growth funded.valid measured
  generalize shape : node.entryFor admission.command
    (AppEnvelope.encode ⟨write.session, write.leaderTime, write.command⟩) = entry at log
  have index : entry.index = node.raft.lastIndex + 1 := by
    rw [← shape]
    rfl
  have app : entry.kind.isApp = true := by
    rw [← shape]
    unfold entryFor
    dsimp only
    split <;> rfl
  have last : next.raft.lastIndex = entry.index := lastIndex_append next.raft log
  have older : ∀ other ∈ node.raft.log, other.index < entry.index := by
    intro other member
    rw [index]
    exact Nat.lt_succ_of_le (tracked_last funded.tracked member)
  have above : node.kv.appliedIndex < entry.index := by
    have applied := funded.tracked.applied
    have committed := funded.tracked.committed
    omega
  have backlog : next.backlog = node.backlog ++ [entry] := by
    unfold Node.backlog
    rw [log, taken.kv, List.filter_append, List.filter_cons_of_pos (by simpa using above), List.filter_nil]
  have apps : ∀ other ∈ node.backlog, other.kind.isApp = true := by
    intro other member
    obtain ⟨logged, high⟩ := mem_backlog.mp member
    exact funded.apps other logged high
  let shares := fun place => if place = entry.index then admission.positiveDelta else share place
  have kept : ∀ other ∈ node.backlog, shares other.index = share other.index := by
    intro other member
    exact if_neg (older other (mem_backlog.mp member).1).ne
  have own : shares entry.index = admission.positiveDelta := if_pos rfl
  -- while nothing is handed out the whole backlog is still reserved
  have covered : (node.backlog.map fun other => share other.index).sum ≤
      total (fun _ amount => amount) node.logicalReservations := by
    have different : (node.backlog.map Entry.index).Nodup := by
      have all : (node.raft.log.map Entry.index).Nodup := by
        rw [funded.tracked.numbered.indices]
        exact List.nodup_range'
      exact all.sublist ((List.filter_sublist ..).map _)
    have bound := @sum_le_total _ _ _ _ _ _ node.logicalReservations (fun _ amount => amount) _ different share ?_
    · rwa [List.map_map] at bound
    · intro place member
      obtain ⟨other, listed, rfl⟩ := List.mem_map.mp member
      rw [Option.map_id']
      exact funded.held other listed (idle ▸ (mem_backlog.mp listed).2)
  have frame : next.frame = node.frame := by
    refine @frame_congr node next taken.config cluster (by rw [taken.kv]) ?_ funded.apps ?_
    · rw [log, List.filter_append, List.filter_cons_of_neg (by simp [not_config app]), List.filter_nil,
        List.append_nil]
    · unfold snapshotLeadershipTransfer
      rw [cluster.transfer, free]
  refine ⟨shares, ?_⟩
  constructor
  · rw [taken.config]
    exact funded.valid
  · exact continues.tracked funded.tracked
  · rw [taken.kv]
    exact funded.synced
  · rw [taken.kv]
    exact funded.behind.trans (continues.applied funded.tracked)
  · exact .inl (cluster.transfer.trans free)
  · rw [log, taken.kv]
    intro other member high
    rcases List.mem_append.mp member with old | new
    · exact funded.apps other old high
    · rw [List.mem_singleton.mp new]
      exact app
  · rw [backlog, taken.config, taken.kv, taken.sessions, cluster.features]
    refine Paid.snoc funded.unpinned apps app (funded.paid.congr kept) ?_
    intro reached leads proposal known
    rw [← shape] at known
    rw [checkProposal_taken funded.valid checked room known, own]
    have reach : node.ahead = some reached := leads
    rw [reach] at affordable
    dsimp only at affordable
    rw [Option.all_some, decide_eq_true_eq] at affordable
    omega
  · have sum : (node.backlog.map fun other => shares other.index) = node.backlog.map fun other => share other.index :=
      List.map_congr_left kept
    rw [backlog, frame, taken.kv, taken.sessions, taken.config, List.map_append, List.sum_append, sum,
      List.map_singleton, List.sum_singleton, own]
    omega
  · rw [backlog, taken.reserved]
    intro other member high
    rcases List.mem_append.mp member with old | new
    · have under := older other (mem_backlog.mp old).1
      have here := funded.held other old ((continues.applied funded.tracked).trans_lt high)
      rw [kept other old]
      split
      · exact here
      rw [Std.ExtTreeMap.getElem?_insert, if_neg]
      · exact here
      · intro same
        rw [last] at same
        exact under.ne' (Std.LawfulEqCmp.eq_of_compare same)
    · rw [List.mem_singleton.mp new, own, last]
      split
      next none => omega
      next => simp

theorem Settled.funded (settled : Settled node) : Funded (fun _ => 0) node := by
  have nothing : node.backlog = [] := by
    unfold backlog
    apply List.filter_eq_nil_iff.mpr
    intro entry member
    rw [decide_eq_true_eq, settled.applied]
    exact (tracked_last settled.tracked member).not_gt
  obtain ⟨charge, measured, fits⟩ := settled.charged
  rw [logicalStateCharge_ok measured] at fits
  constructor
  · exact settled.valid
  · exact settled.tracked
  · exact settled.synced
  · rw [settled.applied, settled.handed]
  · exact .inr settled.handed
  · intro entry member above
    rw [settled.applied] at above
    exact absurd (tracked_last settled.tracked member) above.not_ge
  · rw [nothing]
    trivial
  · rw [nothing]
    exact fits
  · rw [nothing]
    exact fun _ member => absurd member List.not_mem_nil

/-- From a leader whose log is applied and whose charge is within the quota, fair
writes keep it there. -/
theorem fair_writes_keep_quota (settled : Settled node) {last : Node} (run : FairRun node last) {charge : Nat}
    (measured : last.logicalStateCharge = .ok charge) : charge ≤ last.config.policy.maxLiveLogicalBytes := by
  have funded : ∃ share, Funded share last := by
    clear measured
    induction run with
    | refl => exact ⟨_, settled.funded⟩
    | step _ flow fair ih =>
      obtain ⟨share, funded⟩ := ih
      cases flow with
      | take write idle room taken =>
        obtain ⟨admission, taken⟩ := submit_taken taken
        exact funded.admitted taken (fair write rfl) idle room
      | replicate same log tracked last onward => exact ⟨share, funded.replicated same log tracked last onward⟩
      | publish logged following handed done => exact ⟨share, funded.published logged following handed done⟩
  obtain ⟨share, funded⟩ := funded
  have budget := funded.budget
  rw [logicalStateCharge_ok measured]
  omega

/-! The steps are those of `perform`, up to what the charge does not depend on. -/

def accounts (node : Node) : RaftNode × Kv × SessionTable × NodeConfig × BTreeMap Nat Nat :=
  (node.raft, node.kv, node.sessions, node.config, node.logicalReservations)

theorem perform_takes (free : node.continuation = none) (idle : node.kv.appliedIndex = node.raft.appliedIndex)
    (room : node.raft.lastIndex < u64Max) {out : List NodeEffect}
    (done : node.perform (.input (.clientBytes write.client write.request write.session write.command
      write.leaderTime)) = (next, .ok out)) : Flow node (some write) next := by
  have handled : settled (node.submit write) = (next, .ok out) := by
    simp only [perform, onInput, free, Option.isSome_none, Bool.false_and, Bool.false_eq_true, if_false] at done
    exact done
  rcases taken : node.submit write with ⟨last, halt | more⟩
  · rw [taken] at handled
    cases handled
  · obtain ⟨admission, accepted⟩ := submit_taken taken
    obtain ⟨effects, proposed⟩ := accepted.proposed
    have leads := (proposeCommand_continues proposed).2.1
    rw [taken, settled, settle, if_pos leads] at handled
    obtain ⟨rfl, -⟩ := Prod.mk.inj handled
    exact .take write idle room taken

theorem perform_replicates {message : Message} {entries : List Entry} {rest : List RaftEffect} {routes : ReplyRoutes}
    {current : PreparedCommittedEntry} {pending : List PreparedCommittedEntry} (free : node.continuation = none)
    (heard : node.raft.onMessageAt message 0 = (raft, .apply entries :: rest)) (leads : raft.role = .leader)
    (prepared : prepareCommittedEntries node.config.policy node.routes ⟨node.kv, node.sessions, raft⟩ entries =
      (routes, .ok (current :: pending)))
    (same : SameCluster node.raft raft) (log : raft.log = node.raft.log) (tracked : raft.Tracked)
    (last : raft.lastIndex = node.raft.lastIndex) (onward : node.raft.appliedIndex ≤ raft.appliedIndex) :
    ∃ next, Flow node none next ∧ (node.perform (.input (.message message))).1.accounts = next.accounts := by
  refine ⟨_, .replicate same log tracked last onward, ?_⟩
  let waiting : Node := ({ node with raft, routes } : Node).await (.store ⟨current, pending, [], rest⟩)
  have handed : ({ node with raft } : Node).mapEffects (.apply entries :: rest) =
      (waiting.drain.1, .ok ([.persistStore current.walFrame] ++ waiting.drain.2)) := by
    simp only [mapEffects, mapEffectsWith, dropRoutes, if_pos leads, mapLoop, working, prepared, List.nil_append]
    rfl
  have stepped : node.perform (.input (.message message)) =
      settled (({ node with raft } : Node).mapEffects (.apply entries :: rest)) := by
    rw [perform, onInput, if_neg (by simp [free]), handle, heard]
    rfl
  have books := drain_books waiting
  have led : waiting.drain.1.raft.role = .leader := books.raft ▸ leads
  rw [stepped, handed, settled, settle, if_pos led, accounts, books.raft, books.kv, books.sessions, books.config,
    books.logicalReservations]
  rfl

theorem perform_publishes {current following : PreparedCommittedEntry} {pending : List PreparedCommittedEntry}
    {deferred remaining : List RaftEffect} {routes : ReplyRoutes}
    (held : node.continuation = some (.store ⟨current, following :: pending, deferred, remaining⟩))
    (leads : current.next.raft.role = .leader) (logged : entry ∈ node.raft.log)
    (first : entry.index = node.kv.appliedIndex + 1) (handed : entry.index ≤ node.raft.appliedIndex)
    (prepared : prepareCommittedEntries node.config.policy node.routes node.working [entry] = (routes, .ok [current])) :
    ∃ next, Flow node none next ∧ (node.perform (.input (.persisted true))).1.accounts = next.accounts := by
  refine ⟨_, .publish logged first handed prepared, ?_⟩
  simp [perform, onInput, handle, persisted, held, Input.isPersisted, publish, settle, publishEntry, await, leads,
    accounts]

def tightConfig : NodeConfig :=
  { routedConfig with
    policy := { ClusterPolicy.default with maxLiveLogicalBytes := 500, maxSessionBytes := 100 } }

def electedRun : List Event := [
  .input (.timer 10000000000 .election),
  routedPeer 1 1 (.preVoteResp true), durable,
  routedPeer 1 1 (.voteResp true), durable,
  routedPeer 1 1 (.appendResp ⟨true, 1, none, 0, 0⟩), durable]

def plainWrite (request : Nat) (op : KvOp) : Write where
  client := 9
  request := request
  session := none
  command := encodeCommand (.op op)
  leaderTime := 3
  timed := by decide
  counted := by rintro _ _ ⟨⟩

def publishNext (node : Node) : Node :=
  match node.backlog.head? with
  | none => node
  | some entry =>
    match prepareCommittedEntries node.config.policy node.routes node.working [entry] with
    | (routes, .ok [prepared]) => ({ node with routes } : Node).publishEntry prepared
    | _ => node

def replicatedTo (node : Node) (index : Nat) : Node :=
  { node with raft := { node.raft with commitIndex := index, appliedIndex := index } }

/-! The conditions of the three steps, as checks. -/

def readyFor (node : Node) (write : Write) : Bool :=
  decide (node.kv.appliedIndex = node.raft.appliedIndex) && decide (node.raft.lastIndex < u64Max)
    && (node.submit write).2.isOk && node.fair write

def reaches (node : Node) (index : Nat) : Bool :=
  decide (Numbered node.raft.snapshotIndex node.raft.log) && decide (node.raft.snapshotIndex ≤ index)
    && decide (node.raft.appliedIndex ≤ index) && decide (index ≤ node.raft.lastIndex)

def publishable (node : Node) : Bool :=
  node.backlog.head?.any fun entry => decide (entry.index = node.kv.appliedIndex + 1)
    && decide (entry.index ≤ node.raft.appliedIndex)

theorem FairRun.admits {start : Node} (run : FairRun start node) (ready : node.readyFor write = true) :
    FairRun start (node.submit write).1 := by
  simp only [readyFor, Bool.and_eq_true, decide_eq_true_eq] at ready
  obtain ⟨⟨⟨idle, room⟩, taken⟩, fair⟩ := ready
  rcases done : node.submit write with ⟨next, halt | out⟩
  · rw [done] at taken
    cases taken
  · exact .step run (.take write idle room done) (by rintro _ ⟨⟩; exact fair)

theorem FairRun.replicates {start : Node} (run : FairRun start node) {index : Nat}
    (ready : node.reaches index = true) : FairRun start (node.replicatedTo index) := by
  simp only [reaches, Bool.and_eq_true, decide_eq_true_eq] at ready
  obtain ⟨⟨⟨numbered, base⟩, onward⟩, within⟩ := ready
  exact .step run (.replicate ⟨rfl, rfl, rfl, rfl, rfl, rfl, rfl, rfl, rfl⟩ rfl ⟨numbered, base, le_rfl, within⟩ rfl
    onward) (by rintro _ ⟨⟩)

theorem FairRun.publishes {start : Node} (run : FairRun start node) (ready : node.publishable = true) :
    FairRun start node.publishNext := by
  unfold publishable at ready
  unfold publishNext
  cases first : node.backlog.head? with
  | none =>
    rw [first] at ready
    cases ready
  | some entry =>
    rw [first] at ready
    simp only [Option.any_some, Bool.and_eq_true, decide_eq_true_eq] at ready
    have logged := (mem_backlog.mp (List.mem_of_mem_head? first)).1
    dsimp only
    split
    next routes prepared done =>
      exact .step run (.publish logged ready.1 ready.2 done) (by rintro _ ⟨⟩)
    next => exact run

def settles (node : Node) : Bool :=
  node.config.policy.validate.isOk && decide (Numbered node.raft.snapshotIndex node.raft.log)
    && decide (node.raft.snapshotIndex ≤ node.raft.appliedIndex)
    && decide (node.raft.appliedIndex ≤ node.raft.commitIndex)
    && decide (node.raft.commitIndex ≤ node.raft.lastIndex)
    && decide ((node.kv.store.appliedWatermark.map fun watermark => watermark.index).getD 0 = node.kv.appliedIndex)
    && decide (node.raft.appliedIndex = node.raft.lastIndex) && decide (node.kv.appliedIndex = node.raft.lastIndex)
    && node.logicalStateCharge.toOption.any fun charge => decide (charge ≤ node.config.policy.maxLiveLogicalBytes)

theorem Settled.of_check (checks : node.settles = true) : Settled node := by
  simp only [settles, Bool.and_eq_true, decide_eq_true_eq, Option.any_eq_true] at checks
  obtain ⟨⟨⟨⟨⟨⟨⟨⟨valid, numbered⟩, base⟩, applied⟩, committed⟩, synced⟩, handed⟩, all⟩, charge, measured,
    fits⟩ := checks
  refine ⟨?_, ⟨numbered, base, applied, committed⟩, synced, handed, all, charge, ?_, fits⟩
  · cases checked : node.config.policy.validate with
    | ok _ => rfl
    | error error =>
      rw [checked] at valid
      cases valid
  · exact toOption_eq_some.mp measured

def firstWrite : Write := plainWrite 1 (.set [1] [1] none)
def secondWrite : Write := plainWrite 2 (.set [2] [2, 2] none)

def pipelined (node : Node) : Node :=
  ((node.submit firstWrite).1.submit secondWrite).1.replicatedTo 3

theorem fair_writes_keep_quota_pipelined :
    ∃ node last charge, Settled node ∧ FairRun node last ∧ node.kv.appliedIndex = 1 ∧ last.kv.appliedIndex = 3 ∧
      last.logicalStateCharge = .ok charge ∧ charge ≤ last.config.policy.maxLiveLogicalBytes := by
  have facts : ((new tightConfig (Std.ExtTreeSet.ofList [1, 2, 3] compare)).toOption.map fun fresh =>
      ((fresh.after electedRun).settles && (fresh.after electedRun).readyFor firstWrite
          && ((fresh.after electedRun).submit firstWrite).1.readyFor secondWrite
          && (((fresh.after electedRun).submit firstWrite).1.submit secondWrite).1.reaches 3
          && (fresh.after electedRun).pipelined.publishable
          && (fresh.after electedRun).pipelined.publishNext.publishable,
        (fresh.after electedRun).kv.appliedIndex,
        (fresh.after electedRun).pipelined.publishNext.publishNext.kv.appliedIndex,
        (fresh.after electedRun).pipelined.publishNext.publishNext.logicalStateCharge.toOption)) =
      some (true, 1, 3, some 378) := by
    decide +kernel
  obtain ⟨fresh, found, shown⟩ := Option.map_eq_some_iff.mp facts
  have made := toOption_eq_some.mp found
  obtain ⟨checks, rest⟩ := Prod.mk.inj shown
  obtain ⟨before, rest⟩ := Prod.mk.inj rest
  obtain ⟨after, length⟩ := Prod.mk.inj rest
  simp only [Bool.and_eq_true] at checks
  obtain ⟨⟨⟨⟨⟨settles, one⟩, two⟩, reached⟩, publishes⟩, again⟩ := checks
  have settled := Settled.of_check settles
  have run : FairRun (fresh.after electedRun) (fresh.after electedRun).pipelined.publishNext.publishNext :=
    ((((FairRun.refl.admits one).admits two).replicates reached).publishes publishes).publishes again
  cases measured : (fresh.after electedRun).pipelined.publishNext.publishNext.logicalStateCharge with
  | error error =>
    rw [measured] at length
    cases length
  | ok charge =>
    exact ⟨_, _, charge, settled, run, before, after, measured, fair_writes_keep_quota settled run measured⟩

/-- The trial of the second write fails on the present state; behind the first it
stores 200 bytes. -/
def overdrawnRun : List Event := electedRun ++ [
  .input (.clientBytes 9 1 none (encodeCommand (.op (.set [1] [1] none))) 3), durable,
  .input (.clientBytes 9 2 none (encodeCommand (.op (.cas [1] (some [1]) (some (List.replicate 200 7))))) 3), durable,
  routedPeer 1 1 (.appendResp ⟨true, 3, none, 0, 0⟩), durable, durable]

/-- Both are admitted with 305 of 500 bytes in use; with both applied it is 540. -/
theorem pipelined_writes_exceed_quota : ∃ node, new tightConfig (Std.ExtTreeSet.ofList [1, 2, 3] compare) = .ok node ∧
      Settled (node.after electedRun) ∧
      (node.after electedRun).logicalStateCharge = .ok 305 ∧
      (node.after overdrawnRun).kv.appliedIndex = (node.after overdrawnRun).raft.lastIndex ∧
      (node.after overdrawnRun).config.policy.maxLiveLogicalBytes = 500 ∧
      (node.after overdrawnRun).logicalStateCharge = .ok 540 := by
  have facts : ((new tightConfig (Std.ExtTreeSet.ofList [1, 2, 3] compare)).toOption.map fun node =>
      ((node.after electedRun).settles, (node.after electedRun).logicalStateCharge.toOption,
        decide ((node.after overdrawnRun).kv.appliedIndex = (node.after overdrawnRun).raft.lastIndex),
        (node.after overdrawnRun).config.policy.maxLiveLogicalBytes,
        (node.after overdrawnRun).logicalStateCharge.toOption)) = some (true, some 305, true, 500, some 540) := by
    decide +kernel
  obtain ⟨node, found, shown⟩ := Option.map_eq_some_iff.mp facts
  have made := toOption_eq_some.mp found
  obtain ⟨settles, rest⟩ := Prod.mk.inj shown
  obtain ⟨before, rest⟩ := Prod.mk.inj rest
  obtain ⟨applied, rest⟩ := Prod.mk.inj rest
  obtain ⟨quota, after⟩ := Prod.mk.inj rest
  exact ⟨node, made, .of_check settles, toOption_eq_some.mp before, of_decide_eq_true applied, quota,
    toOption_eq_some.mp after⟩

end Node
end CrashCourse.Cluster
