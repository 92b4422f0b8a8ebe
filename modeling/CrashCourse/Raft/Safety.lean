import CrashCourse.Raft.Simulation

/-!
Safety of whole runs, read off the histories that they refine.
-/

namespace CrashCourse.Raft
open CrashCourse.Core Consensus

/-! ### Scripts

A script says at each state which event comes next. -/

namespace Sys

def deliver (sender target : NodeId) (sys : Sys) : Event :=
  match sys.soup.find? fun message => message.sender == sender && message.target == target with
  | some message => .call target (.onMessageAt message 0)
  | none => .applied target

def events (cluster : Cluster) (sys : Sys) : List (Sys → Event) → List Event
  | [] => []
  | choose :: rest => choose sys :: events cluster (sys.step cluster (choose sys)) rest

end Sys

def trio : Cluster where
  membership :=
    { voters := Std.ExtTreeSet.ofList [1, 2, 3] compare
      learners := ∅
      joint := none
      addresses := ∅
      activeFeatures := 0 }
  seed := fun id => id
  config := .default
  valid := by decide +kernel
  appends := by decide

/-- A node stands for election and wins it with another one's vote. -/
def winning (candidate voter : NodeId) : List (Sys → Event) :=
  [fun _ => .call candidate (.onTimer 0 .election),
    Sys.deliver candidate voter, Sys.deliver voter candidate,
    Sys.deliver candidate voter, Sys.deliver voter candidate]

section Elections
variable {group : Group} {sys : Sys} {history before after : History NodeId Entry}

theorem Sim.elected (sim : Sim group sys history) {id : NodeId} (leads : (sys.nodes id).role = .leader) :
    ∃ start, history.elected (sys.nodes id).hardState.term = some (id, start) ∧
      start <+: (sys.nodes id).log := by
  obtain ⟨start, elected, longer⟩ := ((sim.refines id).leads leads).elected
  have own := (sim.refines id).leaderLog sim.inv elected
  rw [sim.ids id] at elected
  obtain ⟨rest, split, -⟩ := sim.inv.leaders.leaderLog_own elected
  refine ⟨start, elected, ?_⟩
  rw [← own, split]
  exact List.prefix_append _ _

theorem Group.admitsAll_of_orderlyRun {cluster : Cluster} {sys : Sys} {events : List Event}
    (orderly : sys.orderlyRun cluster events) : (Group.mk cluster false (by simp)).AdmitsAll sys events := by
  induction events generalizing sys with
  | nil => trivial
  | cons event rest ih =>
    rw [Sys.orderlyRun, Bool.and_eq_true] at orderly
    exact ⟨by simpa [Group.Admits] using orderly.1, ih orderly.2⟩

theorem Group.admitsAll_of_fixed {events : List Event} (fixed : group.fixed)
    (still : ∀ event ∈ events, event.changesMembership = false) (sys : Sys) : group.AdmitsAll sys events := by
  induction events generalizing sys with
  | nil => trivial
  | cons event rest ih =>
    refine ⟨?_, ih (fun other member => still other (List.mem_cons_of_mem _ member)) _⟩
    rw [Group.Admits, if_pos fixed]
    exact still event List.mem_cons_self

theorem Sim.leader_unique {other : Sys} (sim : Sim group sys before) (sim' : Sim group other after)
    (grows : History.Extends before after) {first second : NodeId} (leads : (sys.nodes first).role = .leader)
    (follows : (other.nodes second).role = .leader)
    (term : (sys.nodes first).hardState.term = (other.nodes second).hardState.term) : first = second := by
  obtain ⟨start, elected, -⟩ := sim.elected leads
  obtain ⟨start', elected', -⟩ := sim'.elected follows
  have same := grows.elected elected
  rw [term, elected'] at same
  simp only [Option.some.injEq, Prod.mk.injEq] at same
  exact same.1.symm

end Elections

/-- No two nodes ever lead the same term, at the same time or one after the other, in a
run with fixed voters, and in one in which no late vote is counted and no stale progress
record is taken into office. -/
theorem leader_of_term_unique (cluster : Cluster) (events later : List Event)
    (allowed : cluster.membership.joint = none ∧ (∀ event ∈ events ++ later, event.changesMembership = false) ∨
      Sys.orderlyRun cluster (.init cluster) (events ++ later)) (first second : NodeId)
    (leads : ((Sys.run cluster (.init cluster) events).nodes first).role = .leader)
    (follows : ((Sys.run cluster (.init cluster) (events ++ later)).nodes second).role = .leader)
    (term : ((Sys.run cluster (.init cluster) events).nodes first).hardState.term =
      ((Sys.run cluster (.init cluster) (events ++ later)).nodes second).hardState.term) : first = second := by
  rcases allowed with ⟨simple, still⟩ | orderly
  · set group : Group := ⟨cluster, true, fun _ => simple⟩
    obtain ⟨before, after, grows, sim, sim'⟩ := Sim.both (group.admitsAll_of_fixed rfl still (.init cluster))
    exact sim.leader_unique sim' grows leads follows term
  · obtain ⟨before, after, grows, sim, sim'⟩ := Sim.both (Group.admitsAll_of_orderlyRun orderly)
    exact sim.leader_unique sim' grows leads follows term

def electedEvents : List Event := Sys.events trio (.init trio) (winning 1 2)

def acknowledgedEvents : List Event :=
  Sys.events trio (Sys.run trio (.init trio) electedEvents) [Sys.deliver 1 2, Sys.deliver 2 1]

theorem leader_of_term_unique_trio : ∃ first second,
    ((Sys.run trio (.init trio) electedEvents).nodes first).role = .leader ∧
    ((Sys.run trio (.init trio) (electedEvents ++ acknowledgedEvents)).nodes second).role = .leader ∧ first = second :=
  have leads : ((Sys.run trio (.init trio) electedEvents).nodes 1).role = .leader := by decide +kernel
  have follows : ((Sys.run trio (.init trio) (electedEvents ++ acknowledgedEvents)).nodes 1).role = .leader := by
    decide +kernel
  ⟨1, 1, leads, follows, leader_of_term_unique trio electedEvents acknowledgedEvents (.inr (by decide +kernel)) 1 1 leads
    follows (by decide +kernel)⟩

def newcomers : BTreeSet NodeId := Std.ExtTreeSet.ofList [1, 4, 5] compare

/-- Node 1 leads term 1, and its joint configuration reaches the nodes 4 and 5 but no
old voter. After a restart it asks for votes in term 2, which 4 and 5 grant, but node
2 wins term 2 with node 3. -/
def contested : List (Sys → Event) :=
  winning 1 2 ++
  [fun _ => .call 1 (.enterJoint newcomers),
    Sys.deliver 1 4, Sys.deliver 4 1, Sys.deliver 1 4, Sys.deliver 1 4,
    Sys.deliver 1 5, Sys.deliver 5 1, Sys.deliver 1 5, Sys.deliver 1 5,
    fun _ => .crash 1 .requestRead 0,
    fun _ => .call 1 (.onTimer 0 .election), fun _ => .call 2 (.onTimer 0 .election),
    Sys.deliver 2 3, Sys.deliver 3 2,
    Sys.deliver 1 3, Sys.deliver 1 4, Sys.deliver 3 1, Sys.deliver 4 1,
    Sys.deliver 2 3, Sys.deliver 3 2]

/-- Node 2 moves the group to the voters 1, 4 and 5. Node 1 follows, a pre-vote makes
it a candidate of its term, and only then do the votes of 4 and 5 arrive. -/
def aftermath : List (Sys → Event) :=
  [Sys.deliver 1 4, Sys.deliver 1 5,
    Sys.deliver 2 1, Sys.deliver 1 2, Sys.deliver 2 1, Sys.deliver 1 2,
    fun _ => .call 2 (.enterJoint newcomers),
    Sys.deliver 2 1, Sys.deliver 1 2,
    Sys.deliver 2 4, Sys.deliver 4 2, Sys.deliver 2 4, Sys.deliver 4 2, Sys.deliver 2 4,
    Sys.deliver 4 2,
    fun _ => .call 2 .leaveJoint, Sys.deliver 2 1,
    fun _ => .call 1 (.onTimer 0 .election), Sys.deliver 4 1, Sys.deliver 5 1]

def contestedEvents : List Event := Sys.events trio (.init trio) contested

def aftermathEvents : List Event :=
  Sys.events trio (Sys.run trio (.init trio) contestedEvents) aftermath

/-- The nodes 2 and 1 both come to lead term 2. -/
theorem contested_term_has_two_leaders : (2 : NodeId) ≠ 1 ∧
      ((Sys.run trio (.init trio) contestedEvents).nodes 2).role = .leader ∧
      ((Sys.run trio (.init trio) contestedEvents).nodes 2).hardState.term = 2 ∧
      ((Sys.run trio (.init trio) (contestedEvents ++ aftermathEvents)).nodes 1).role = .leader ∧
      ((Sys.run trio (.init trio) (contestedEvents ++ aftermathEvents)).nodes 1).hardState.term
        = 2 := by
  decide +kernel

/-- The entry stands below the commit index of a leader. -/
structure Sys.Commits (sys : Sys) (leader : NodeId) (entry : Entry) : Prop where
  leads : (sys.nodes leader).role = .leader
  held : entry ∈ (sys.nodes leader).log
  within : entry.index ≤ (sys.nodes leader).commitIndex

/-- Who leads a later term in the second state has what the leaders of the first one
committed. -/
def Sys.CommitsReach (committing leading : Sys) : Prop :=
  ∀ leader successor entry, committing.Commits leader entry →
    (leading.nodes successor).role = .leader →
    (committing.nodes leader).hardState.term < (leading.nodes successor).hardState.term →
    entry ∈ (leading.nodes successor).log

section Entries
variable {group : Group} {sys other : Sys} {history before after : History NodeId Entry}

theorem Sim.applied_agree (sim : Sim group sys history) {left right : NodeId}
    {entry entry' : Entry} (first : (left, entry) ∈ sys.applied)
    (second : (right, entry') ∈ sys.applied) (same : entry.index = entry'.index) : entry = entry' := by
  obtain ⟨pre, inside, decided⟩ := sim.applied first
  obtain ⟨pre', inside', decided'⟩ := sim.applied second
  have here := (sim.refines left).numbered sim.inv
  have there := (sim.refines right).numbered sim.inv
  rw [← (sim.refines left).log, sim.ids] at here
  rw [← (sim.refines right).log, sim.ids] at there
  refine History.Settles.unique sim.inv inside decided inside' decided' ?_
  have index := here.index_of_start inside
  have index' := there.index_of_start inside'
  omega

theorem Sim.commits_decided (sim : Sim group sys history) {leader : NodeId} {entry : Entry}
    (commits : sys.Commits leader entry) : entry ∈ (sys.nodes leader).log.take (sys.nodes leader).commitIndex := by
  have numbered := (sim.refines leader).numbered sim.inv
  obtain ⟨pre, rest, split⟩ := List.append_of_mem commits.held
  have inside : pre ++ [entry] <+: (sys.nodes leader).log := ⟨rest, by simp [split]⟩
  have index := numbered.index_of_start inside
  have within := commits.within
  have taken : pre ++ [entry] <+: (sys.nodes leader).log.take (sys.nodes leader).commitIndex := by
    rw [List.prefix_take_iff]
    exact ⟨inside, by simp; omega⟩
  exact taken.subset (by simp)

theorem Sim.commits_reach (sim : Sim group sys before) (sim' : Sim group other after)
    {whole : History NodeId Entry} (inv : History.Inv (rules group) whole)
    (grows : History.Extends before whole) (grows' : History.Extends after whole) : sys.CommitsReach other := by
  intro leader successor entry commits leads newer
  have decided := (sim.refines leader).decided.grow grows
  obtain ⟨start, elected, within⟩ := sim'.elected leads
  have held := decided.in_start inv newer successor start (grows'.elected elected)
  exact within.subset (held.subset (sim.commits_decided commits))

end Entries

/-- With fixed voters all nodes ever apply the same entry at an index, and what a
leader committed is in the log of every leader of a later term, whichever is looked at
first. -/
theorem state_machine_safety (cluster : Cluster) (simple : cluster.membership.joint = none)
    (events later : List Event) (still : ∀ event ∈ events ++ later, event.changesMembership = false) :
    (∀ {left right entry entry'},
      (left, entry) ∈ (Sys.run cluster (.init cluster) events).applied →
      (right, entry') ∈ (Sys.run cluster (.init cluster) events).applied →
      entry.index = entry'.index → entry = entry') ∧ (Sys.run cluster (.init cluster) events).CommitsReach
      (Sys.run cluster (.init cluster) (events ++ later)) ∧
    (Sys.run cluster (.init cluster) (events ++ later)).CommitsReach
      (Sys.run cluster (.init cluster) events) := by
  set group : Group := ⟨cluster, true, fun _ => simple⟩
  obtain ⟨before, after, grows, sim, sim'⟩ :=
    Sim.both (group.admitsAll_of_fixed rfl still (.init cluster))
  exact ⟨sim.applied_agree, sim.commits_reach sim' sim'.inv grows (.refl after),
    sim'.commits_reach sim sim'.inv (.refl after) grows⟩

/-- Node 1 wins term 1, and nodes 1 and 2 apply the first entry of the term. -/
def servedEvents : List Event :=
  Sys.events trio (.init trio)
    (winning 1 2 ++ [Sys.deliver 1 2, Sys.deliver 2 1, Sys.deliver 1 2, Sys.deliver 2 1,
      fun _ => .call 1 (.onTimer 0 .heartbeat), Sys.deliver 1 2])

def successionEvents : List Event :=
  Sys.events trio (Sys.run trio (.init trio) servedEvents) (winning 2 3)

def opening : Entry := ⟨1, 1, .noop, []⟩

theorem state_machine_safety_trio : (1, opening) ∈ (Sys.run trio (.init trio) servedEvents).applied ∧
      (2, opening) ∈ (Sys.run trio (.init trio) servedEvents).applied ∧
      opening ∈ ((Sys.run trio (.init trio) (servedEvents ++ successionEvents)).nodes 2).log :=
  have reach := (state_machine_safety trio rfl servedEvents successionEvents (by decide +kernel)).2.1
  ⟨by decide +kernel, by decide +kernel,
    reach 1 2 opening ⟨by decide +kernel, by decide +kernel, by decide +kernel⟩
      (by decide +kernel) (by decide +kernel)⟩

end CrashCourse.Raft
