import CrashCourse.Consensus.Majority
import CrashCourse.Consensus.Progress
import CrashCourse.Raft.System

/-!
The membership as a function of the log. The anchor of a log is the entry at which the
last membership that was left had been entered: it was committed before, and every quorum
since contains a majority of its new voters.
-/

namespace CrashCourse.Raft
open CrashCourse.Core

structure Projection where
  voters : BTreeSet NodeId
  learners : BTreeSet NodeId
  joint : Option (BTreeSet NodeId × BTreeSet NodeId)
  enterIndex : Option Nat
  /-- Where the open joint membership entered the log; zero for the genesis one. -/
  entered : Nat
  anchor : Nat
  /-- The voters of the last membership that is known to be committed. -/
  home : BTreeSet NodeId

namespace Projection

def genesis (membership : MembershipState) : Projection where
  voters := membership.voters
  learners := membership.learners
  joint := membership.joint.map fun joint => (joint.oldVoters, joint.newVoters)
  enterIndex := membership.joint.map JointMembership.enterIndex
  entered := 0
  anchor := 0
  home := match membership.joint with
    | some joint => joint.newVoters
    | none => membership.voters

def apply (projection : Projection) (index : Nat) : ConfigOperation → Projection
  | .addLearner id _ => { projection with learners := projection.learners.insert id }
  | .removeLearner id => { projection with learners := projection.learners.erase id }
  | .enterJoint newVoters =>
    { projection with
      voters := projection.voters ∪ newVoters
      learners := projection.learners.filter fun id => !newVoters.contains id
      joint := some (projection.voters, newVoters)
      enterIndex := some index
      entered := index }
  | .leaveJoint enterIndex =>
    if projection.enterIndex = some enterIndex then
      match projection.joint with
      | some (_, new) =>
        { projection with
          voters := new
          joint := none
          enterIndex := none
          anchor := projection.entered
          home := new }
      | none => { projection with enterIndex := none }
    else projection
  | _ => projection

def entry (projection : Projection) (entry : Entry) : Projection :=
  if entry.kind.isConfig then
    match entry.envelope? with
    | some envelope => projection.apply entry.index envelope.operation
    | none => projection
  else projection

def Quorum (projection : Projection) (set : Set NodeId) : Prop :=
  match projection.joint with
  | some (old, new) => Consensus.Majority old.toList set ∧ Consensus.Majority new.toList set
  | none => Consensus.Majority projection.voters.toList set

theorem Quorum.mono {projection : Projection} {small large : Set NodeId} (more : small ⊆ large)
    (quorum : projection.Quorum small) : projection.Quorum large := by
  unfold Quorum at quorum ⊢
  split at quorum
  · exact ⟨quorum.1.mono more, quorum.2.mono more⟩
  · exact quorum.mono more

end Projection

def project (membership : MembershipState) (log : List Entry) : Projection :=
  log.foldl Projection.entry (.genesis membership)

@[simp] theorem project_append (membership : MembershipState) (log : List Entry) (entry : Entry) :
    project membership (log ++ [entry]) = (project membership log).entry entry := by
  simp [project]

def Admits (membership : MembershipState) (log : List Entry) (index : Nat) :
    ConfigOperation → Prop
  | .addLearner id _ => id ∉ (project membership log).voters ∧ id ∉ (project membership log).learners
  | .removeLearner id => id ∈ (project membership log).learners
  | .updateAddress id _ =>
    id ∈ (project membership log).voters ∨ id ∈ (project membership log).learners
  | .enterJoint newVoters => (project membership log).joint = none ∧ newVoters.isEmpty = false ∧
      transferScan (log.filter fun entry => entry.kind.isConfig) none = false
  | .leaveJoint enterIndex => (project membership log).joint.isSome ∧
      (project membership log).enterIndex = some enterIndex
  | .beginLeaderTransfer target => target ∈ (project membership log).voters ∧
      (project membership log).joint = none ∧
      transferScan (log.filter fun entry => entry.kind.isConfig) none = false
  | .finishLeaderTransfer intentIndex _ => intentIndex < index ∧
      ∃ begin ∈ log, begin.index = intentIndex ∧ begin.configHas isBeginTransfer
  | .activateFeature feature => feature = atomicBatchFeature ∧
      (membership.activeFeatures &&& feature) = 0 ∧
      ∀ prior ∈ log, ¬ prior.configHas (isActivationOf feature)

structure Acceptable (membership : MembershipState) (log : List Entry) (entry : Entry) : Prop where
  index : entry.index = log.length + 1
  config : entry.kind.isConfig → ∃ envelope, entry.envelope? = some envelope ∧
    Admits membership log entry.index envelope.operation

def ValidLog (membership : MembershipState) (log : List Entry) : Prop :=
  ∀ pre entry, pre ++ [entry] <+: log → Acceptable membership pre entry

namespace ValidLog
variable {membership : MembershipState} {log : List Entry} {entry : Entry}

theorem nil : ValidLog membership [] := by
  intro pre entry inside
  simp at inside

theorem of_start {short : List Entry} (valid : ValidLog membership log) (start : short <+: log) :
    ValidLog membership short :=
  fun pre entry inside => valid pre entry (inside.trans start)

theorem append (valid : ValidLog membership log) (acceptable : Acceptable membership log entry) :
    ValidLog membership (log ++ [entry]) := by
  intro pre last inside
  rcases List.prefix_concat_iff.mp inside with same | inside
  · obtain ⟨samePre, sameLast⟩ := List.append_inj' same rfl
    obtain rfl := List.singleton_inj.mp sameLast
    subst samePre
    exact acceptable
  · exact valid pre last inside

theorem last (valid : ValidLog membership (log ++ [entry])) : Acceptable membership log entry :=
  valid log entry List.prefix_rfl

end ValidLog

inductive Moves (before after : Projection) (entry : Entry) : Prop
  | keeps (joint : after.joint = before.joint) (enterIndex : after.enterIndex = before.enterIndex)
      (entered : after.entered = before.entered) (anchor : after.anchor = before.anchor)
      (home : after.home = before.home) (voters : after.voters = before.voters)
  | enters (newVoters : BTreeSet NodeId) (envelope : ConfigEnvelope) (config : entry.kind.isConfig)
      (decoded : entry.envelope? = some envelope) (operation : envelope.operation = .enterJoint newVoters)
      (was : before.joint = none) (joint : after.joint = some (before.voters, newVoters))
      (enterIndex : after.enterIndex = some entry.index) (entered : after.entered = entry.index)
      (anchor : after.anchor = before.anchor) (home : after.home = before.home)
  | leaves (old new : BTreeSet NodeId) (was : before.joint = some (old, new))
      (envelope : ConfigEnvelope) (decoded : entry.envelope? = some envelope)
      (index : Nat) (operation : envelope.operation = .leaveJoint index)
      (open_ : before.enterIndex = some index)
      (joint : after.joint = none) (enterIndex : after.enterIndex = none)
      (anchor : after.anchor = before.entered)
      (home : after.home = new) (voters : after.voters = new)

variable {log short left right : List Entry} {membership : MembershipState} {leftSet rightSet : Set NodeId}

theorem Acceptable.moves {entry : Entry} (acceptable : Acceptable membership log entry) :
    Moves (project membership log) (project membership (log ++ [entry])) entry := by
  rw [project_append]
  unfold Projection.entry
  by_cases config : entry.kind.isConfig
  · obtain ⟨envelope, decoded, admits⟩ := acceptable.config config
    rw [if_pos config, decoded]
    dsimp only
    cases operation : envelope.operation with
    | addLearner id address
    | removeLearner id
    | updateAddress id address
    | beginLeaderTransfer target
    | finishLeaderTransfer index result
    | activateFeature feature => exact .keeps rfl rfl rfl rfl rfl rfl
    | enterJoint newVoters =>
      rw [operation] at admits
      exact .enters newVoters envelope config decoded operation admits.1 rfl rfl rfl rfl rfl
    | leaveJoint index =>
      rw [operation] at admits
      obtain ⟨isJoint, open_⟩ := admits
      obtain ⟨⟨old, new⟩, was⟩ := Option.isSome_iff_exists.mp isJoint
      simp only [Projection.apply, was, open_, if_true]
      exact .leaves old new was envelope decoded index operation open_ rfl rfl rfl rfl rfl
  · rw [if_neg config]
    exact .keeps rfl rfl rfl rfl rfl rfl

/-- The entry at this index of the log enters a joint membership with these voters. -/
def EnteredAt (log : List Entry) (index : Nat) (newVoters : BTreeSet NodeId) : Prop :=
  ∃ pre entry envelope, pre ++ [entry] <+: log ∧ pre.length + 1 = index ∧
    entry.kind.isConfig ∧ entry.envelope? = some envelope ∧ envelope.operation = .enterJoint newVoters

theorem EnteredAt.of_start {long : List Entry} {index : Nat} {newVoters : BTreeSet NodeId}
    (entered : EnteredAt short index newVoters) (start : short <+: long) : EnteredAt long index newVoters := by
  obtain ⟨pre, entry, envelope, inside, rest⟩ := entered
  exact ⟨pre, entry, envelope, inside.trans start, rest⟩

theorem EnteredAt.unique {index : Nat} {leftVoters rightVoters : BTreeSet NodeId}
    (first : EnteredAt left index leftVoters) (second : EnteredAt right index rightVoters)
    (shared : left.take index <+: right) : leftVoters = rightVoters := by
  obtain ⟨pre, entry, envelope, inside, here, _, decoded, operation⟩ := first
  obtain ⟨pre', entry', envelope', inside', here', _, decoded', operation'⟩ := second
  have taken : left.take index = pre ++ [entry] := by
    rw [Consensus.take_of_start inside (by simp; omega), ← here]
    simp
  rw [taken] at shared
  have same : pre ++ [entry] = pre' ++ [entry'] :=
    (List.prefix_of_prefix_length_le shared inside' (by simp; omega)).eq_of_length (by simp; omega)
  obtain rfl := List.singleton_inj.mp (List.append_inj' same rfl).2
  rw [decoded] at decoded'
  obtain rfl := Option.some.inj decoded'
  rw [operation] at operation'
  exact ConfigOperation.enterJoint.inj operation'

/-- How the open membership, the anchor and the home voters hang together. -/
structure Shape (membership : MembershipState) (log : List Entry) (projection : Projection) : Prop where
  settled : projection.joint = none → projection.voters = projection.home
  pending : ∀ old new, projection.joint = some (old, new) →
    (projection.entered = 0 ∧ projection.anchor = 0 ∧ new = projection.home) ∨
      (projection.anchor < projection.entered ∧ projection.enterIndex = some projection.entered ∧
        old = projection.home ∧ EnteredAt log projection.entered new)
  anchored : (projection.anchor = 0 ∧ projection.home = (Projection.genesis membership).home) ∨
    EnteredAt log projection.anchor projection.home

theorem EnteredAt.index_le {index : Nat} {newVoters : BTreeSet NodeId} (entered : EnteredAt log index newVoters) :
    index ≤ log.length := by
  obtain ⟨pre, entry, _, inside, here, _⟩ := entered
  have := inside.length_le
  simp at this
  omega

theorem Shape.genesis (membership : MembershipState) : Shape membership [] (Projection.genesis membership) where
  settled none := by
    cases joint : membership.joint with
    | none => simp [Projection.genesis, joint]
    | some value => simp [Projection.genesis, joint] at none
  pending old new isJoint := by
    cases joint : membership.joint with
    | none => simp [Projection.genesis, joint] at isJoint
    | some value =>
      simp only [Projection.genesis, joint, Option.map_some, Option.some.injEq, Prod.mk.injEq] at isJoint
      exact .inl ⟨rfl, rfl, by simp [Projection.genesis, joint, isJoint.2]⟩
  anchored := .inl ⟨rfl, rfl⟩

theorem Shape.append {entry : Entry} (shape : Shape membership log (project membership log))
    (acceptable : Acceptable membership log entry) :
    Shape membership (log ++ [entry]) (project membership (log ++ [entry])) := by
  have grows : log <+: log ++ [entry] := List.prefix_append _ _
  have anchored : ((project membership log).anchor = 0 ∧
      (project membership log).home = (Projection.genesis membership).home) ∨
      EnteredAt (log ++ [entry]) (project membership log).anchor (project membership log).home :=
    shape.anchored.imp id fun entered => entered.of_start grows
  have bound : (project membership log).anchor ≤ log.length := by
    rcases shape.anchored with ⟨zero, _⟩ | entered
    · omega
    · exact entered.index_le
  cases acceptable.moves with
  | keeps joint enterIndex entered anchor home voters =>
    refine ⟨?_, ?_, ?_⟩
    · rw [joint, voters, home]
      exact shape.settled
    · intro old new isJoint
      rw [joint] at isJoint
      rw [entered, anchor, home, enterIndex]
      exact (shape.pending old new isJoint).imp id fun ⟨later, here, same, at_⟩ =>
        ⟨later, here, same, at_.of_start grows⟩
    · rw [anchor, home]
      exact anchored
  | enters newVoters envelope config decoded operation was joint enterIndex entered anchor home =>
    refine ⟨?_, ?_, ?_⟩
    · rw [joint]
      simp
    · intro old new isJoint
      rw [joint] at isJoint
      obtain ⟨rfl, rfl⟩ := Prod.mk.inj (Option.some.inj isJoint)
      refine .inr ⟨?_, ?_, ?_, ?_⟩
      · rw [anchor, entered, acceptable.index]
        omega
      · rw [enterIndex, entered]
      · rw [home]
        exact shape.settled was
      · rw [entered]
        exact ⟨log, entry, envelope, List.prefix_rfl, acceptable.index.symm, config, decoded,
          operation⟩
    · rw [anchor, home]
      exact anchored
  | leaves old new was envelope decoded index operation open_ joint enterIndex anchor home voters =>
    refine ⟨fun _ => voters.trans home.symm, ?_, ?_⟩
    · rw [joint]
      simp
    · rw [anchor, home]
      rcases shape.pending old new was with ⟨zero, anchorZero, same⟩ | ⟨_, _, _, entered⟩
      · rcases shape.anchored with ⟨_, base⟩ | ⟨_, _, _, _, here, _⟩
        · exact .inl ⟨zero, same.trans base⟩
        · omega
      · exact .inr (entered.of_start grows)

theorem ValidLog.shape (valid : ValidLog membership log) : Shape membership log (project membership log) := by
  induction log using List.reverseRecOn with
  | nil => exact Shape.genesis membership
  | append_singleton log entry ih =>
    exact (ih (valid.of_start (List.prefix_append _ _))).append valid.last

theorem ValidLog.anchor_le (valid : ValidLog membership log) : (project membership log).anchor ≤ log.length := by
  rcases valid.shape.anchored with ⟨zero, _⟩ | entered
  · omega
  · exact entered.index_le

/-- A joint membership that a prefix has open is still open, or the anchor has moved
to it or beyond. -/
theorem ValidLog.open_or_anchored (valid : ValidLog membership log) (start : short <+: log)
    (isJoint : (project membership short).joint.isSome) :
    ((project membership log).joint = (project membership short).joint ∧
      (project membership log).entered = (project membership short).entered) ∨
      (project membership short).entered ≤ (project membership log).anchor := by
  induction log using List.reverseRecOn with
  | nil =>
    rw [List.prefix_nil.mp start]
    exact .inl ⟨rfl, rfl⟩
  | append_singleton log entry ih =>
    rcases List.prefix_concat_iff.mp start with rfl | inside
    · exact .inl ⟨rfl, rfl⟩
    have before := valid.of_start (List.prefix_append log [entry])
    have shape := before.shape
    rcases ih before inside with ⟨sameJoint, sameEntered⟩ | anchored
    · cases valid.last.moves with
      | keeps joint _ entered _ _ _ => exact .inl ⟨joint.trans sameJoint, entered.trans sameEntered⟩
      | enters _ _ _ _ _ was _ _ _ _ _ =>
        rw [← sameJoint, was] at isJoint
        cases isJoint
      | leaves _ _ _ _ _ _ _ _ _ _ anchor _ _ => exact .inr (by rw [anchor, sameEntered])
    · refine .inr ?_
      cases valid.last.moves with
      | keeps _ _ _ anchor _ _ => rwa [anchor]
      | enters _ _ _ _ _ _ _ _ _ anchor _ => rwa [anchor]
      | leaves old new was _ _ _ _ _ _ _ anchor _ _ =>
        rw [anchor]
        rcases shape.pending old new was with ⟨zero, anchorZero, _⟩ | ⟨later, _⟩ <;> omega

theorem Shape.home_majority {projection : Projection} (shape : Shape membership log projection) {set : Set NodeId}
    (quorum : projection.Quorum set) : Consensus.Majority projection.home.toList set := by
  unfold Projection.Quorum at quorum
  split at quorum
  next old new isJoint =>
    rcases shape.pending old new isJoint with ⟨_, _, same⟩ | ⟨_, _, same, _⟩
    · exact same ▸ quorum.2
    · exact same ▸ quorum.1
  next settled => exact shape.settled settled ▸ quorum

/-- If the anchor of the right log lies in the left one beyond its own, the left log
has that membership open, so its quorums contain a majority of its new voters. -/
theorem ValidLog.overlap_of_lt (validLeft : ValidLog membership left) (validRight : ValidLog membership right)
    (beyond : (project membership left).anchor < (project membership right).anchor)
    (shared : right.take (project membership right).anchor <+: left)
    (leftQuorum : (project membership left).Quorum leftSet) (rightQuorum : (project membership right).Quorum rightSet) :
    (leftSet ∩ rightSet).Nonempty := by
  obtain ⟨pre, entry, envelope, inside, here, config, decoded, operation⟩ :
      EnteredAt right (project membership right).anchor (project membership right).home :=
    validRight.shape.anchored.resolve_left fun zero => by omega
  have taken : right.take (project membership right).anchor = pre ++ [entry] := by
    rw [Consensus.take_of_start inside (by simp; omega), ← here]
    simp
  rw [taken] at shared
  have opened : project membership (pre ++ [entry]) =
      (project membership pre).apply entry.index (.enterJoint (project membership right).home) := by
    simp [Projection.entry, config, decoded, operation]
  rcases validLeft.open_or_anchored shared (by rw [opened]; rfl) with ⟨joint, _⟩ | anchored
  · rw [opened] at joint
    simp only [Projection.apply] at joint
    unfold Projection.Quorum at leftQuorum
    rw [joint] at leftQuorum
    exact leftQuorum.2.meet (validRight.shape.home_majority rightQuorum)
  · rw [opened] at anchored
    simp only [Projection.apply, (validRight pre entry inside).index] at anchored
    omega

theorem ValidLog.overlap (validLeft : ValidLog membership left) (validRight : ValidLog membership right)
    (leftShared : left.take (project membership left).anchor <+: right)
    (rightShared : right.take (project membership right).anchor <+: left)
    (leftQuorum : (project membership left).Quorum leftSet) (rightQuorum : (project membership right).Quorum rightSet) :
    (leftSet ∩ rightSet).Nonempty := by
  rcases lt_trichotomy (project membership left).anchor (project membership right).anchor with
    below | same | above
  · exact validLeft.overlap_of_lt validRight below rightShared leftQuorum rightQuorum
  · have home : (project membership left).home = (project membership right).home := by
      rcases validLeft.shape.anchored with ⟨zero, base⟩ | entered
      · rcases validRight.shape.anchored with ⟨_, base'⟩ | ⟨_, _, _, _, here, _⟩
        · exact base.trans base'.symm
        · omega
      · rcases validRight.shape.anchored with ⟨zero, _⟩ | entered'
        · obtain ⟨_, _, _, _, here, _⟩ := entered
          omega
        · exact entered.unique (same ▸ entered') leftShared
    exact (validLeft.shape.home_majority leftQuorum).meet
      (home ▸ validRight.shape.home_majority rightQuorum)
  · rw [Set.inter_comm]
    exact validRight.overlap_of_lt validLeft above leftShared rightQuorum leftQuorum

/-- A group, and whether its operators leave its membership alone for good. -/
structure Group extends Cluster where
  fixed : Bool
  settled : fixed → membership.joint = none

/-- The peers whose progress matters: in a fixed group its members alone. -/
def Group.Watches (group : Group) (peer : NodeId) : Prop :=
  group.fixed → peer ∈ group.membership.voters ∨ peer ∈ group.membership.learners

def Plain (log : List Entry) : Prop := ∀ entry ∈ log, entry.kind.isConfig = false

theorem Plain.project (plain : Plain log) (membership : MembershipState) :
    project membership log = .genesis membership := by
  induction log using List.reverseRecOn with
  | nil => rfl
  | append_singleton log entry ih =>
    rw [project_append, ih fun other member => plain other (by simp [member])]
    simp [Projection.entry, plain entry (by simp)]

def rules (group : Group) : Consensus.Rules NodeId Entry where
  term := Entry.term
  valid log := ValidLog group.membership log ∧ (group.fixed → Plain log)
  quorum log := (project group.membership log).Quorum
  anchor log := (project group.membership log).anchor
  valid_nil := ⟨ValidLog.nil, fun _ => by simp [Plain]⟩
  valid_of_start start valid :=
    ⟨valid.1.of_start start, fun fixed entry member => valid.2 fixed entry (start.subset member)⟩
  quorum_mono more quorum := quorum.mono more
  overlap left right := left.1.overlap right.1

end CrashCourse.Raft
