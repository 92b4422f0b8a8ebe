import CrashCourse.Raft.Safety
import CrashCourse.Raft.Stream

/-!
Runs with crashes, loss and repetition, looked at in two moments: with fixed voters any
schedule, with changes of membership an orderly one. What holds of two nodes holds
whichever is looked at first.
-/

namespace CrashCourse.Raft
open CrashCourse.Core Consensus

namespace Sys

theorem executeAll_applied (id : NodeId) (effects : List RaftEffect) (sys : Sys) :
    sys.applied <+: (sys.executeAll id effects).applied := by
  induction effects generalizing sys with
  | nil => exact List.prefix_rfl
  | cons effect rest ih =>
    refine List.IsPrefix.trans ?_ (ih (sys.execute id effect))
    cases effect with
    | apply entries => exact List.prefix_append _ _
    | _ => exact List.prefix_rfl

theorem step_applied (cluster : Cluster) (sys : Sys) (event : Event) :
    sys.applied <+: (sys.step cluster event).applied := by
  cases event with
  | call id call =>
    rw [step]
    split
    · have same : ((sys.take id call).setNode id ((sys.nodes id).call call).1).applied = sys.applied := by
        cases call <;> rfl
      exact same ▸ executeAll_applied id _ _
    · exact List.prefix_rfl
  | applied id =>
    rw [step]
    split
    · split <;> exact List.prefix_rfl
    · exact List.prefix_rfl
  | crash id call executed =>
    rw [step]
    split
    · exact executeAll_applied id _ _
    · exact List.prefix_rfl

theorem run_applied (cluster : Cluster) (events : List Event) (sys : Sys) :
    sys.applied <+: (sys.run cluster events).applied := by
  induction events generalizing sys with
  | nil => exact List.prefix_rfl
  | cons event rest ih => exact (sys.step_applied cluster event).trans (ih _)

end Sys

/-- The two states are moments of one run that the group admits, in this order. -/
def Group.Reaches (group : Group) (sys other : Sys) : Prop :=
  ∃ events later, group.AdmitsAll (.init group.toCluster) (events ++ later) ∧
    sys = .run group.toCluster (.init group.toCluster) events ∧
    other = .run group.toCluster (.init group.toCluster) (events ++ later)

section Admitted
variable {group : Group} {sys other : Sys} (run : group.Reaches sys other)
include run

theorem Group.Reaches.both :
    ∃ before after, History.Extends before after ∧ Sim group sys before ∧ Sim group other after := by
  obtain ⟨events, later, admits, rfl, rfl⟩ := run
  exact Sim.both admits

theorem Group.Reaches.applied : sys.applied ⊆ other.applied := by
  obtain ⟨events, later, -, rfl, rfl⟩ := run
  rw [Sys.run, Sys.run, List.foldl_append]
  exact (Sys.run_applied group.toCluster later _).subset

end Admitted

def served : Sys := .run trio (.init trio) servedEvents

def succeeded : Sys := .run trio (.init trio) (servedEvents ++ successionEvents)

theorem succeeded_reached : (Group.mk trio false (by simp)).Reaches served succeeded :=
  ⟨servedEvents, successionEvents, Group.admitsAll_of_orderlyRun (by decide +kernel), rfl, rfl⟩

theorem served_reached : (Group.mk trio false (by simp)).Reaches served served :=
  ⟨servedEvents, [], Group.admitsAll_of_orderlyRun (by decide +kernel), rfl, by rw [List.append_nil, served]⟩

structure InvariantViolation where
  name : String
  detail : String

def RaftNode.invariants (node : RaftNode) : List InvariantViolation :=
  let applied := node.appliedIndex
  let commit := node.commitIndex
  let last := node.lastIndex
  (if applied > commit then [⟨"applied_le_commit", s!"{applied} > {commit}"⟩] else []) ++
  (if commit > last then [⟨"commit_le_last", s!"{commit} > {last}"⟩] else []) ++
  (node.log.zip node.log.tail).filterMap fun pair =>
    let (first, second) := (pair.1.index, pair.2.index)
    if second ≠ first + 1 then some ⟨"log_contiguous", s!"{first} then {second}"⟩ else none

theorem Numbered.windows {base : Nat} {log : List Entry} (numbered : Numbered base log) {pair : Entry × Entry}
    (member : pair ∈ log.zip log.tail) : pair.2.index = pair.1.index + 1 := by
  induction log generalizing base with
  | nil => simp at member
  | cons first rest ih =>
    cases rest with
    | nil => simp at member
    | cons second rest =>
      have one := numbered.1
      have two := numbered.2.1
      rcases List.mem_cons.mp member with rfl | member
      · dsimp only
        omega
      · exact ih numbered.2 member

theorem RaftNode.Tracked.invariants {node : RaftNode} (tracked : node.Tracked) : node.invariants = [] := by
  have windows (pair : Entry × Entry) (member : pair ∈ node.log.zip node.log.tail) :=
    tracked.numbered.windows member
  simp only [RaftNode.invariants, if_neg (not_lt.mpr tracked.applied), if_neg (not_lt.mpr tracked.committed),
    List.nil_append, List.filterMap_eq_nil_iff]
  exact fun pair member => if_neg (not_not.mpr (windows pair member))

theorem Cluster.boot_applied (cluster : Cluster) (id : NodeId) : (cluster.boot id).appliedIndex = 0 := by
  rw [Cluster.boot, RaftNode.restoreMembershipState]
  split <;> rfl

theorem Cluster.restore_applied (cluster : Cluster) (id : NodeId) (disk : Disk) :
    (cluster.restore id disk).appliedIndex = 0 :=
  (RaftNode.rebuild_body _).appliedIndex.trans (cluster.boot_applied id)

namespace Sim
variable {group : Group} {sys : Sys} {history : History NodeId Entry} (sim : Sim group sys history)
include sim

theorem log_eq (id : NodeId) : (sys.nodes id).log = history.log id := by
  rw [← (sim.refines id).log, sim.ids]

theorem term_eq (id : NodeId) : (sys.nodes id).hardState.term = history.term id := by
  rw [← (sim.refines id).term, sim.ids]

theorem sound (id : NodeId) : history.Sound (rules group) (sys.nodes id).log :=
  sim.log_eq id ▸ sim.inv.leaders.log_sound id

theorem leaderLog {id : NodeId} (leads : (sys.nodes id).role = .leader) :
    (history.elected (sys.nodes id).hardState.term).isSome ∧
      history.leaderLog (sys.nodes id).hardState.term = (sys.nodes id).log := by
  obtain ⟨start, elected, -⟩ := ((sim.refines id).leads leads).elected
  exact ⟨by rw [elected]; rfl, (sim.refines id).leaderLog sim.inv elected⟩

theorem granted {vote : Message} (sent : vote ∈ sys.soup) (yes : vote.kind = .voteResp true) :
    vote.sender ∈ history.voters vote.term vote.target := by
  have truthful := sim.soup vote sent
  rw [Truthful, yes] at truthful
  exact truthful rfl

theorem tracked {id : NodeId} (applied : (sys.nodes id).appliedIndex ≤ (sys.nodes id).commitIndex) :
    (sys.nodes id).Tracked := by
  have base := (sim.refines id).rooted.snapshotIndex
  have numbered := (sim.refines id).numbered sim.inv
  exact ⟨base ▸ numbered, base ▸ Nat.zero_le _, applied, by
    rw [(sim.refines id).lastIndex sim.inv]; exact (sim.refines id).decided.1⟩

theorem step_below (below : ∀ id, (sys.nodes id).appliedIndex ≤ (sys.nodes id).commitIndex) (event : Event)
    (id : NodeId) : ((sys.step group.toCluster event).nodes id).appliedIndex ≤
      ((sys.step group.toCluster event).nodes id).commitIndex := by
  have moved (other : NodeId) {node : RaftNode} (kept : node.appliedIndex ≤ node.commitIndex) :
      (Function.update sys.nodes other node id).appliedIndex ≤
        (Function.update sys.nodes other node id).commitIndex := by
    rw [Function.update_apply]
    split
    · exact kept
    · exact below id
  cases event with
  | applied other =>
    rw [Sys.step]
    split
    · split <;> exact below id
    · exact below id
  | call other call =>
    rw [Sys.step]
    split
    · obtain ⟨passed, advances, -⟩ := RaftNode.call_streams (sim.tracked (below other)) call
      rw [Sys.perform, Sys.executeAll_nodes]
      cases call <;> exact moved other advances.tracked.applied
    · exact below id
  | crash other call executed =>
    rw [Sys.step]
    split
    · dsimp only [Sys.crash, Sys.setNode]
      rw [Sys.executeAll_nodes]
      exact moved other ((group.toCluster.restore_applied other _).trans_le (Nat.zero_le _))
    · exact below id

theorem run_below {events : List Event} (below : ∀ id, (sys.nodes id).appliedIndex ≤ (sys.nodes id).commitIndex)
    (admits : group.AdmitsAll sys events) (id : NodeId) :
    ((sys.run group.toCluster events).nodes id).appliedIndex ≤
      ((sys.run group.toCluster events).nodes id).commitIndex := by
  induction events generalizing sys history with
  | nil => exact below id
  | cons event rest ih =>
    obtain ⟨middle, -, next⟩ := sim.step event admits.1
    exact ih next (sim.step_below below event) admits.2

end Sim

section Moments
variable {group : Group} {sys other : Sys}

/-- Also while the membership changes, all nodes ever apply the same entry at an
index, and what a leader committed is in the log of every leader of a later term,
whichever of the two is looked at first. -/
theorem orderly_state_machine_safety (run : group.Reaches sys other) :
    (∀ {left right entry entry'}, (left, entry) ∈ sys.applied → (right, entry') ∈ other.applied →
      entry.index = entry'.index → entry = entry') ∧ sys.CommitsReach other ∧ other.CommitsReach sys := by
  obtain ⟨before, after, grows, sim, sim'⟩ := run.both
  exact ⟨fun first second => sim'.applied_agree (run.applied first) second,
    sim.commits_reach sim' sim'.inv grows (.refl after), sim'.commits_reach sim sim'.inv (.refl after) grows⟩

theorem orderly_state_machine_safety_trio : (2, opening) ∈ succeeded.applied ∧ opening ∈ (succeeded.nodes 2).log :=
  ⟨by decide +kernel, (orderly_state_machine_safety succeeded_reached).2.1 1 2 opening
    ⟨by decide +kernel, by decide +kernel, by decide +kernel⟩ (by decide +kernel) (by decide +kernel)⟩

/-- Two logs that have an entry of one term at one place are the same up to it. -/
theorem logs_match (run : group.Reaches sys other) {left right : NodeId} {position : Nat} {entry entry' : Entry}
    (first : (sys.nodes left).log[position]? = some entry)
    (second : (other.nodes right).log[position]? = some entry') (same : entry.term = entry'.term) :
    (sys.nodes left).log.take (position + 1) = (other.nodes right).log.take (position + 1) := by
  obtain ⟨before, after, grows, sim, sim'⟩ := run.both
  exact (grows.sound (sim.sound left)).agree (sim'.sound right) first second same

theorem logs_match_trio : (served.nodes 1).log.take 1 = (succeeded.nodes 2).log.take 1 :=
  logs_match succeeded_reached (show _ = some opening by decide +kernel) (show _ = some opening by decide +kernel) rfl

/-- The log of a term's leader only ever grows. -/
theorem leader_appends_only (run : group.Reaches sys other) {leader successor : NodeId}
    (leads : (sys.nodes leader).role = .leader) (follows : (other.nodes successor).role = .leader)
    (term : (sys.nodes leader).hardState.term = (other.nodes successor).hardState.term) :
    (sys.nodes leader).log <+: (other.nodes successor).log := by
  obtain ⟨before, after, grows, sim, sim'⟩ := run.both
  rw [← (sim.leaderLog leads).2, ← (sim'.leaderLog follows).2, term]
  exact grows.leaderLog _

theorem leader_appends_only_trio : (served.nodes 1).log <+: (succeeded.nodes 1).log :=
  leader_appends_only succeeded_reached (by decide +kernel) (by decide +kernel) (by decide +kernel)

/-- Logs agree as far as both nodes know them to be committed. -/
theorem committed_logs_agree (run : group.Reaches sys other) {left right : NodeId} {index : Nat}
    (first : index ≤ (sys.nodes left).commitIndex) (second : index ≤ (other.nodes right).commitIndex) :
    (sys.nodes left).log.take index = (other.nodes right).log.take index := by
  obtain ⟨before, after, grows, sim, sim'⟩ := run.both
  exact (((sim.refines left).decided.grow grows).less first).agree sim'.inv
    ((sim'.refines right).decided.less second)

theorem committed_logs_agree_trio : (served.nodes 1).log.take 1 = (succeeded.nodes 2).log.take 1 :=
  committed_logs_agree succeeded_reached (by decide +kernel) (by decide +kernel)

/-- What a node has handed to its host stays on its disk through every crash, and
every leader of its term or a later one has it. -/
theorem applied_survives (run : group.Reaches sys other) {id : NodeId} {entry : Entry}
    (applied : (id, entry) ∈ sys.applied) :
    entry ∈ (other.disks id).log ∧ ∀ leader, (other.nodes leader).role = .leader →
      (other.disks id).hard.term ≤ (other.nodes leader).hardState.term → entry ∈ (other.nodes leader).log := by
  obtain ⟨before, after, grows, sim, sim'⟩ := run.both
  have settles := sim'.applied (run.applied applied)
  refine ⟨sim'.log id ▸ settles.member, fun leader leads bound => ?_⟩
  obtain ⟨pre, inside, decided⟩ := settles
  rw [sim'.hard] at bound
  have held := (decided.mono bound).in_leaderLog sim'.inv (sim'.leaderLog leads).1
  rw [(sim'.leaderLog leads).2] at held
  refine held.subset ?_
  rw [take_of_start inside (by simp), List.take_of_length_le (by simp)]
  simp

theorem applied_survives_trio : opening ∈ (succeeded.disks 2).log ∧ opening ∈ (succeeded.nodes 2).log :=
  have survives := applied_survives succeeded_reached (show (2, opening) ∈ served.applied by decide +kernel)
  ⟨survives.1, survives.2 2 (by decide +kernel) (by decide +kernel)⟩

/-- The self-check of a node finds nothing. -/
theorem invariants_hold (run : group.Reaches sys other) (id : NodeId) : (sys.nodes id).invariants = [] := by
  obtain ⟨history, -, -, sim, -⟩ := run.both
  obtain ⟨events, later, admits, rfl, -⟩ := run
  have fresh (id : NodeId) := ((group.toCluster.boot_applied id).trans_le (Nat.zero_le _) :
    (group.toCluster.boot id).appliedIndex ≤ (group.toCluster.boot id).commitIndex)
  exact (sim.tracked ((Sim.init group).run_below fresh admits.split.1 id)).invariants

theorem invariants_hold_trio : (served.nodes 2).invariants = [] := invariants_hold served_reached 2

/-- Between calls the disk of a node has its term, its vote and its log. -/
theorem disk_mirrors_node (run : group.Reaches sys other) (id : NodeId) :
    sys.disks id = ⟨(sys.nodes id).hardState, (sys.nodes id).log⟩ := by
  obtain ⟨history, -, -, sim, -⟩ := run.both
  have vote := (sim.refines id).vote
  rw [sim.ids] at vote
  have hard := congrArg₂ HardState.mk (sim.term_eq id).symm vote
  exact congrArg₂ Disk.mk ((sim.hard id).trans hard) ((sim.log id).trans (sim.log_eq id).symm)

theorem disk_mirrors_node_trio : served.disks 2 = ⟨(served.nodes 2).hardState, (served.nodes 2).log⟩ :=
  disk_mirrors_node served_reached 2

/-- A vote once sent is recorded on the voter's disk for as long as the term lasts
there, and no second one is ever sent in that term. -/
theorem vote_granted_once (run : group.Reaches sys other) {vote : Message} (sent : vote ∈ sys.soup)
    (granted : vote.kind = .voteResp true) :
    vote.term ≤ (other.disks vote.sender).hard.term ∧
    ((other.disks vote.sender).hard.term = vote.term →
      (other.disks vote.sender).hard.votedFor = some vote.target) ∧
    ∀ second ∈ other.soup, second.kind = .voteResp true → second.sender = vote.sender →
      second.term = vote.term → second.target = vote.target := by
  obtain ⟨before, after, grows, sim, sim'⟩ := run.both
  obtain ⟨grant, recorded, chosen⟩ := sim.granted sent granted
  have recorded := grows.granted recorded
  rw [sim'.hard]
  refine ⟨sim'.inv.ballots.granted_bound recorded, ?_, fun second seen yes sender term => ?_⟩
  · intro (reached : after.term vote.sender = vote.term)
    rw [← chosen]
    exact sim'.inv.ballots.granted_vote (reached ▸ recorded)
  · obtain ⟨grant', recorded', chosen'⟩ := sim'.granted seen yes
    rw [sender, term, recorded] at recorded'
    rw [← chosen, ← chosen', Option.some.inj recorded']

theorem vote_granted_once_trio : (served.disks 2).hard.votedFor = some 1 :=
  have sent : (⟨2, 2, 1, 1, .voteResp true⟩ : Message) ∈ served.soup := by decide +kernel
  (vote_granted_once served_reached sent rfl).2.1 (by decide +kernel)

/-- A success once reported never exceeds what is on the disk of the node, as long as
it has not moved on to a newer term. -/
theorem acknowledged_is_durable (run : group.Reaches sys other) {answer : Message} {response : AppendResponse}
    (sent : answer ∈ sys.soup) (kind : answer.kind = .appendResp response) (success : response.success)
    (current : (other.disks answer.sender).hard.term = answer.term) {leader : NodeId}
    (leads : (other.nodes leader).role = .leader)
    (term : (other.nodes leader).hardState.term = answer.term) :
    response.matchIndex ≤ (other.nodes leader).log.length ∧
    (other.nodes leader).log.take response.matchIndex <+: (other.disks answer.sender).log := by
  obtain ⟨before, after, grows, sim, sim'⟩ := run.both
  have truthful : TruthfulResponse before answer.term answer.sender response := by
    simpa only [Truthful, kind] using sim.soup answer sent
  rw [TruthfulResponse, if_pos success] at truthful
  have within := truthful.1.trans (grows.acked _ _)
  rw [sim'.hard] at current
  rw [sim'.log, ← (sim'.leaderLog leads).2, term]
  refine ⟨within.trans (sim'.inv.acks.acked_le _ _), sim'.inv.acks.retained within ?_⟩
  intro newer above bound
  exact absurd (above.trans_le bound) (by rw [show after.term _ = _ from current]; exact lt_irrefl _)

theorem acknowledged_is_durable_trio : (served.nodes 1).log.take 1 <+: (served.disks 2).log :=
  have sent : (⟨2, 2, 1, 1, .appendResp ⟨true, 1, none, 0, 0⟩⟩ : Message) ∈ served.soup := by decide +kernel
  have leads : (served.nodes 1).role = .leader := by decide +kernel
  (acknowledged_is_durable served_reached sent rfl rfl (by decide +kernel) leads (by decide +kernel)).2

end Moments
end CrashCourse.Raft
