import CrashCourse.Raft.Requests

/-!
Runs of a group are simulated by the replicated log: after every event nodes, disks and
messages refine a history that extends the one before; a crash cuts it where it cuts the
effects.
-/

namespace CrashCourse.Raft
open CrashCourse.Core Consensus

variable {group : Group} {sys : Sys} {history : History NodeId Entry}

structure Recorded (group : Group) (sys : Sys) (history : History NodeId Entry) : Prop where
  hard : ∀ id, (sys.disks id).hard = ⟨history.term id, history.vote id⟩
  log : ∀ id, (sys.disks id).log = history.log id
  soup : ∀ message ∈ sys.soup, Truthful group history message
  pending : ∀ id, ∀ entry ∈ sys.pending id, history.Settles id entry
  applied : ∀ {id entry}, (id, entry) ∈ sys.applied → history.Settles id entry

structure Sim (group : Group) (sys : Sys) (history : History NodeId Entry) : Prop
    extends Recorded group sys history where
  inv : History.Inv (rules group) history
  refines : ∀ id, Refines group history (sys.nodes id)
  ids : ∀ id, (sys.nodes id).id = id

section Effects
variable {id : NodeId} {after : History NodeId Entry}

theorem Recorded.along {disks : NodeId → Disk} (recorded : Recorded group sys history)
    (inv : History.Inv (rules group) history) (steps : History.Steps (rules group) id history after)
    (others : ∀ other ≠ id, disks other = sys.disks other)
    (hard : (disks id).hard = ⟨after.term id, after.vote id⟩) (log : (disks id).log = after.log id) :
    Recorded group { sys with disks } after where
  hard other := by
    by_cases same : other = id
    · subst same; exact hard
    · obtain ⟨term, vote, _⟩ := History.Steps.frame steps same
      rw [term, vote, ← recorded.hard other]
      exact congrArg Disk.hard (others other same)
  log other := by
    by_cases same : other = id
    · subst same; exact log
    · obtain ⟨_, _, kept⟩ := History.Steps.frame steps same
      rw [kept, ← recorded.log other]
      exact congrArg Disk.log (others other same)
  soup message member := (recorded.soup message member).along inv steps
  pending other entry member := History.Steps.settles inv steps (recorded.pending other entry member)
  applied member := History.Steps.settles inv steps (recorded.applied member)

theorem Recorded.execute {effect : RaftEffect} (recorded : Recorded group sys history)
    (inv : History.Inv (rules group) history) (steps : History.Steps (rules group) id history after)
    (explained : Explains group history after id effect) : Recorded group (sys.execute id effect) after := by
  have untouched : Untouched history after id → Recorded group sys after := by
    intro same
    refine recorded.along inv steps (fun _ _ => rfl) ?_ ?_
    · rw [same.term, same.vote]; exact recorded.hard id
    · rw [same.log]; exact recorded.log id
  have written : ∀ disk : Disk, disk.hard = ⟨after.term id, after.vote id⟩ →
      disk.log = after.log id → Recorded group (sys.setDisk id disk) after := by
    intro disk hard log
    refine recorded.along inv steps (fun other apart => ?_) ?_ ?_
    · simp [apart]
    · simpa using hard
    · simpa using log
  cases effect with
  | send message =>
    have kept := untouched explained.1
    refine { kept with soup := fun other member => ?_ }
    rcases List.mem_cons.mp member with rfl | member
    · exact explained.2
    · exact kept.soup other member
  | persistHard hard =>
    obtain ⟨term, vote, log⟩ := explained
    refine written _ ?_ ?_
    · rw [term, vote]
    · rw [log]; exact recorded.log id
  | persistEntries entries | truncateSuffix index =>
    obtain ⟨term, vote, log⟩ := explained
    refine written _ ?_ ?_
    · rw [term, vote]; exact recorded.hard id
    · rw [log, ← recorded.log id]
  | apply entries =>
    obtain ⟨same, settles⟩ := explained
    have kept := untouched same
    refine { kept with pending := fun other entry member => ?_, applied := fun member => ?_ }
    · by_cases here : other = id
      · subst here
        simp only [Sys.execute, Function.update_self, List.mem_append] at member
        rcases member with member | member
        · exact kept.pending other entry member
        · exact settles entry member
      · simp only [Sys.execute, Function.update_of_ne here] at member
        exact kept.pending other entry member
    · simp only [Sys.execute, List.mem_append, List.mem_map, Prod.mk.injEq] at member
      rcases member with member | ⟨entry, member, rfl, rfl⟩
      · exact kept.applied member
      · exact settles entry member
  | _ => exact untouched explained

theorem Recorded.executeAll {effects : List RaftEffect} (recorded : Recorded group sys history)
    (inv : History.Inv (rules group) history) (follows : Follows group id history effects after) :
    Recorded group (sys.executeAll id effects) after := by
  induction follows generalizing sys with
  | done steps same =>
    refine recorded.along inv steps (fun _ _ => rfl) ?_ ?_
    · rw [same.term, same.vote]; exact recorded.hard id
    · rw [same.log]; exact recorded.log id
  | cons steps explained later ih =>
    exact ih (recorded.execute inv steps explained) (History.Steps.inv inv steps)

theorem Follows.cut {before : History NodeId Entry} {effects : List RaftEffect}
    (follows : Follows group id before effects after) (count : Nat) :
    ∃ middle, Follows group id before (effects.take count) middle := by
  induction follows generalizing count with
  | @done before after steps same =>
    refine ⟨before, ?_⟩
    rw [List.take_nil]
    exact .refl before
  | @cons before middle after effect rest steps explained later ih =>
    cases count with
    | zero => exact ⟨before, .refl before⟩
    | succ count =>
      obtain ⟨last, follows⟩ := ih count
      exact ⟨last, .cons steps explained follows⟩

theorem Sys.executeAll_nodes (sys : Sys) (id : NodeId) (effects : List RaftEffect) :
    (sys.executeAll id effects).nodes = sys.nodes := by
  unfold Sys.executeAll
  induction effects generalizing sys with
  | nil => rfl
  | cons effect rest ih =>
    rw [List.foldl_cons, ih]
    cases effect <;> rfl

end Effects

structure RaftNode.Cold (cluster : Cluster) (id : NodeId) (node : RaftNode) : Prop where
  id : node.id = id
  rooted : node.Rooted cluster.membership
  config : node.config = cluster.config
  commitIndex : node.commitIndex = 0
  transfer : node.transfer = none
  activeFeatures : node.activeFeatures = cluster.membership.activeFeatures
  role : node.role ≠ .leader ∧ node.role ≠ .candidate

theorem Cluster.boot_eq (cluster : Cluster) (id : NodeId) :
    ∃ node : RaftNode, cluster.boot id = node ∧ node.Cold cluster id ∧ node.hardState = ⟨0, none⟩ ∧
      node.log = [] ∧ node.retiringPeers = ∅ ∧ node.Carries (.genesis cluster.membership) := by
  refine ⟨_, rfl, ?_⟩
  unfold Cluster.boot RaftNode.restoreMembershipState
  rw [cluster.valid]
  refine ⟨⟨rfl, ⟨rfl, rfl, rfl, rfl, rfl, rfl, rfl⟩, rfl, rfl, rfl, rfl, ?_⟩, rfl, rfl, rfl,
    ⟨rfl, rfl, rfl, rfl⟩⟩
  change (if cluster.membership.voters.contains id then Role.follower else Role.learner) ≠ _ ∧
    (if cluster.membership.voters.contains id then Role.follower else Role.learner) ≠ _
  split <;> simp

theorem RaftNode.Cold.refines {node : RaftNode} {id : NodeId} (cold : node.Cold group.toCluster id)
    (hard : node.hardState = ⟨history.term id, history.vote id⟩) (log : node.log = history.log id)
    (carries : node.Carries (project group.membership node.log))
    (retired : group.fixed → node.retiringPeers = ∅) : Refines group history node where
  rooted := cold.rooted
  config := cold.config
  term := by rw [cold.id, hard]
  vote := by rw [cold.id, hard]
  log := by rw [cold.id, log]
  carries := carries
  leads role := absurd role cold.role.1
  asked role := absurd role cold.role.2
  voted role := absurd role cold.role.2
  decided := by rw [cold.commitIndex]; exact .zero
  retired := retired
  transfer isOpen := by simp [cold.transfer] at isOpen
  genesisFeatures genesis := by rw [cold.activeFeatures]; exact genesis
  activated active := by rw [cold.activeFeatures] at active; exact .inl active

theorem Group.restore_refines (group : Group) (inv : History.Inv (rules group) history) {id : NodeId}
    {disk : Disk} (hard : disk.hard = ⟨history.term id, history.vote id⟩) (log : disk.log = history.log id) :
    Refines group history (group.restore id disk) ∧ (group.restore id disk).id = id := by
  obtain ⟨boot, eq, cold, -, -, -, -⟩ := group.boot_eq id
  unfold Cluster.restore RaftNode.replayRetainedMembershipSuffix
  rw [eq]
  set node : RaftNode := { boot with hardState := disk.hard, log := disk.log } with node_eq
  have rooted : node.Rooted group.membership := { cold.rooted with }
  have body := node.rebuild_body
  have sound := inv.leaders.sound_valid (inv.leaders.log_sound id)
  rw [← log] at sound
  have again : node.rebuildMembershipFromLog.Cold group.toCluster id := {
    id := body.id.trans cold.id
    rooted := rooted.of_body body
    config := body.config.trans cold.config
    commitIndex := body.commitIndex.trans cold.commitIndex
    transfer := by
      rw [RaftNode.rebuild_transfer]
      by_contra isOpen
      obtain ⟨transfer, isOpen⟩ := Option.ne_none_iff_exists'.mp isOpen
      obtain ⟨was, wasOpen, -⟩ := node.resyncTransferFinishing_transfer isOpen
      simp [node_eq, cold.transfer] at wasOpen
    activeFeatures := RaftNode.rebuild_features rooted
    role := by
      rcases body.role with kept | reset
      · rw [kept]; exact cold.role
      · rw [reset]; simp }
  refine ⟨again.refines (body.hardState.trans hard) (body.log.trans log) ?_ ?_, again.id⟩
  · rw [body.log]
    exact RaftNode.rebuild_carries rooted sound.1
  · exact fun fixed => RaftNode.rebuild_retired (sound.2 fixed)

theorem Sim.init (group : Group) : Sim group (.init group.toCluster) .init where
  hard _ := rfl
  log _ := rfl
  soup _ member := by simp [Sys.init] at member
  pending _ _ member := by simp [Sys.init] at member
  applied member := by simp [Sys.init] at member
  inv := .init rfl
  refines id := by
    obtain ⟨boot, eq, cold, hard, log, retired, carries⟩ := group.boot_eq id
    rw [show (Sys.init group.toCluster).nodes id = boot from eq]
    exact cold.refines hard log (by rw [log]; exact carries) fun _ => retired
  ids id := by
    obtain ⟨boot, eq, cold, -⟩ := group.boot_eq id
    rw [show (Sys.init group.toCluster).nodes id = boot from eq]
    exact cold.id

/-- No vote of an election the node does not stand in any more is counted, and office
is taken only with progress records that `become_leader` resets. -/
def RaftNode.orderly (node : RaftNode) (call : Call) : Bool :=
  !node.countsLateVote call && (!node.takesOffice call || node.tidy)

def Sys.orderly (sys : Sys) : Event → Bool
  | .call id call | .crash id call _ => !sys.offers id call || (sys.nodes id).orderly call
  | .applied _ => true

def Sys.orderlyRun (cluster : Cluster) (sys : Sys) : List Event → Bool
  | [] => true
  | event :: rest => sys.orderly event && orderlyRun cluster (sys.step cluster event) rest

def Event.changesMembership : Event → Bool
  | .call _ made | .crash _ made _ => made.changesMembership
  | .applied _ => false

/-- A fixed group asks that an event leaves the membership alone, any other one that
it is orderly. -/
def Group.Admits (group : Group) (sys : Sys) (event : Event) : Prop :=
  if group.fixed then event.changesMembership = false else sys.orderly event

namespace Sim
variable {id : NodeId} {call : Call}

section
variable (sim : Sim group sys history)
include sim

theorem offered (offers : sys.offers id call) : Offered group history id call := by
  cases call with
  | onMessageAt message now =>
    simp only [Sys.offers, Bool.and_eq_true, beq_iff_eq, List.contains_iff_mem] at offers
    exact ⟨offers.1, sim.soup message offers.2⟩
  | applyCommittedConfig entry =>
    refine sim.pending id entry ?_
    simp only [Sys.offers] at offers
    split at offers
    next next rest queue => rw [queue, ← eq_of_beq offers]; exact List.mem_cons_self
    next => cases offers
  | _ => trivial

theorem simulates (offers : sys.offers id call)
    (admits : if group.fixed then call.changesMembership = false
      else !sys.offers id call || (sys.nodes id).orderly call) :
    Simulates group history id ((sys.nodes id).call call) := by
  have refines := sim.refines id
  have own := sim.ids id
  have offered := sim.offered offers
  generalize sys.nodes id = node at refines own admits
  subst own
  by_cases fixed : group.fixed
  · rw [if_pos fixed] at admits
    exact refines.call sim.inv call offered (fun _ => admits) (.inl fixed)
      fun _ free => absurd fixed free
  · rw [if_neg fixed, offers] at admits
    have orderly : node.orderly call := by simpa using admits
    simp only [RaftNode.orderly, Bool.and_eq_true, Bool.or_eq_true, Bool.not_eq_true'] at orderly
    refine refines.call sim.inv call offered (fun now => absurd now fixed) (.inr orderly.1) ?_
    intro takes _
    exact orderly.2.resolve_left (by simp [takes])

theorem moved {after : History NodeId Entry} {node : RaftNode}
    (steps : History.Steps (rules group) id history after) (refines : Refines group after node)
    (own : node.id = id) {next : Sys} (nodes : next.nodes = Function.update sys.nodes id node)
    (recorded : Recorded group next after) : Sim group next after where
  toRecorded := recorded
  inv := History.Steps.inv sim.inv steps
  refines other := by
    rw [nodes]
    by_cases same : other = id
    · subst same; rw [Function.update_self]; exact refines
    · rw [Function.update_of_ne same]
      exact (sim.refines other).frame sim.inv steps (by rw [sim.ids]; exact same)
  ids other := by
    rw [nodes]
    by_cases same : other = id
    · subst same; rw [Function.update_self]; exact own
    · rw [Function.update_of_ne same]; exact sim.ids other

theorem perform (simulates : Simulates group history id ((sys.nodes id).call call)) :
    ∃ after, History.Extends history after ∧ Sim group (sys.perform id call) after := by
  obtain ⟨after, follows, refines, own⟩ := simulates
  refine ⟨after, History.Steps.grows sim.inv follows.steps, ?_⟩
  refine sim.moved follows.steps refines own ?_ (Recorded.executeAll ?_ sim.inv follows)
  · rw [Sys.perform, Sys.executeAll_nodes]
    cases call <;> rfl
  · cases call with
    | applyCommittedConfig entry =>
      refine { sim.toRecorded with pending := fun other entry member => ?_ }
      refine sim.pending other entry ?_
      by_cases same : other = id
      · subst same
        exact List.mem_of_mem_tail (by simpa [Sys.take, Sys.setNode] using member)
      · simpa [Sys.take, Sys.setNode, same] using member
    | _ => exact { sim.toRecorded with }

theorem crash (executed : Nat)
    (simulates : Simulates group history id ((sys.nodes id).call call)) : ∃ after, History.Extends history after ∧
      Sim group (sys.crash group.toCluster id call executed) after := by
  obtain ⟨_, follows, -, -⟩ := simulates
  obtain ⟨after, follows⟩ := follows.cut executed
  have recorded := sim.toRecorded.executeAll sim.inv follows
  obtain ⟨refines, own⟩ := group.restore_refines (History.Steps.inv sim.inv follows.steps)
    (recorded.hard id) (recorded.log id)
  refine ⟨after, History.Steps.grows sim.inv follows.steps, ?_⟩
  refine sim.moved follows.steps refines own ?_ ?_
  · rw [Sys.crash]
    change Function.update (Sys.executeAll id sys _).nodes id _ = _
    rw [Sys.executeAll_nodes]
  · refine { recorded with pending := fun other entry member => ?_ }
    by_cases same : other = id
    · subst same; simp [Sys.crash] at member
    · refine recorded.pending other entry ?_
      simpa [Sys.crash, same] using member

theorem step (event : Event) (admits : group.Admits sys event) :
    ∃ after, History.Extends history after ∧ Sim group (sys.step group.toCluster event) after := by
  have stays : ∃ after, History.Extends history after ∧ Sim group sys after :=
    ⟨history, .refl history, sim⟩
  cases event with
  | call id call =>
    rw [Sys.step]
    split
    next offers => exact sim.perform (sim.simulates offers admits)
    next => exact stays
  | applied id =>
    rw [Sys.step]
    split
    next next rest queue =>
      split
      · exact stays
      refine ⟨history, .refl history, { sim with pending := fun other entry member => ?_ }⟩
      refine sim.pending other entry ?_
      by_cases same : other = id
      · subst same
        rw [queue]
        exact List.mem_cons_of_mem _ (by simpa using member)
      · simpa [same] using member
    next => exact stays
  | crash id call executed =>
    rw [Sys.step]
    split
    next offers => exact sim.crash executed (sim.simulates offers admits)
    next => exact stays

end

end Sim

def Group.AdmitsAll (group : Group) (sys : Sys) : List Event → Prop
  | [] => True
  | event :: rest => group.Admits sys event ∧ AdmitsAll group (sys.step group.toCluster event) rest

theorem Sim.run {events : List Event} (sim : Sim group sys history) (admits : group.AdmitsAll sys events) :
    ∃ after, History.Extends history after ∧ Sim group (sys.run group.toCluster events) after := by
  induction events generalizing sys history with
  | nil => exact ⟨history, .refl history, sim⟩
  | cons event rest ih =>
    obtain ⟨middle, grows, sim⟩ := sim.step event admits.1
    obtain ⟨after, more, sim⟩ := ih sim admits.2
    exact ⟨after, grows.trans more, sim⟩

theorem Group.AdmitsAll.split {first second : List Event} (admits : group.AdmitsAll sys (first ++ second)) :
    group.AdmitsAll sys first ∧ group.AdmitsAll (sys.run group.toCluster first) second := by
  induction first generalizing sys with
  | nil => exact ⟨trivial, admits⟩
  | cons event rest ih =>
    obtain ⟨one, two⟩ := ih admits.2
    exact ⟨⟨admits.1, one⟩, two⟩

theorem Sim.both {events later : List Event} (admits : group.AdmitsAll (.init group.toCluster) (events ++ later)) :
    ∃ before after, History.Extends before after ∧
      Sim group (Sys.run group.toCluster (.init group.toCluster) events) before ∧
      Sim group (Sys.run group.toCluster (.init group.toCluster) (events ++ later)) after := by
  obtain ⟨first, second⟩ := admits.split
  obtain ⟨before, -, sim⟩ := (Sim.init group).run first
  obtain ⟨after, grows, sim'⟩ := sim.run second
  refine ⟨before, after, grows, sim, ?_⟩
  rw [Sys.run, List.foldl_append]
  exact sim'

end CrashCourse.Raft
