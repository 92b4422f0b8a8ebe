import CrashCourse.Raft.Replay

/-!
Two folds compute the membership, one entry at a time and by a rebuild. They differ in the
address of a node that left with a `LeaveJoint` and comes back without a new one.
-/

namespace CrashCourse.Raft
open CrashCourse.Core

/-- The voters that a `LeaveJoint` retired, and the ids without a route after one,
until an operation sets or removes their address. -/
structure Routes where
  retired : NodeId → Bool
  dropped : NodeId → Bool

namespace Routes

def none : Routes where
  retired _ := false
  dropped _ := false

def settle (routes : Routes) (id : NodeId) : Routes where
  retired := routes.retired
  dropped other := other != id && routes.dropped other

def leave (routes : Routes) (self : NodeId) (old new learners : BTreeSet NodeId) : Routes :=
  let retired := fun id => routes.retired id || (old.contains id && !new.contains id && id != self)
  { retired
    dropped := fun id =>
      routes.dropped id || !(new.contains id || learners.contains id || retired id) }

def apply (routes : Routes) (self : NodeId) (projection : Projection) : ConfigOperation → Routes
  | .addLearner id (some _) => routes.settle id
  | .removeLearner id => routes.settle id
  | .updateAddress id _ => routes.settle id
  | .leaveJoint _ =>
    match projection.joint with
    | some (old, new) => routes.leave self old new projection.learners
    | .none => routes
  | _ => routes

def entry (routes : Routes) (self : NodeId) (projection : Projection) (entry : Entry) : Routes :=
  if entry.kind.isConfig then
    match entry.envelope? with
    | some envelope => routes.apply self projection envelope.operation
    | .none => routes
  else routes

def along (self : NodeId) : Projection → Routes → List Entry → Routes
  | _, routes, [] => routes
  | projection, routes, first :: rest =>
    along self (projection.entry first) (routes.entry self projection first) rest

end Routes

namespace RaftNode
variable {node next live replayed : RaftNode} {projection : Projection} {routes : Routes}

def acceptAll (node : RaftNode) : List Entry → Except RaftError RaftNode
  | [] => .ok node
  | entry :: rest =>
    if entry.kind.isConfig then
      match node.applyConfigOnAppend entry with
      | .error error => .error error
      | .ok projected => acceptAll { projected with log := projected.log ++ [entry] } rest
    else acceptAll { node with log := node.log ++ [entry] } rest

theorem foldl_insert_contains (terminal : RetiringPeer) (peers : List NodeId)
    (retiring : BTreeMap NodeId RetiringPeer) (id : NodeId) :
    (peers.foldl (fun retiring peer => retiring.insert peer terminal) retiring).contains id ↔
      retiring.contains id ∨ id ∈ peers := by
  induction peers generalizing retiring with
  | nil => simp
  | cons first rest ih =>
    rw [List.foldl_cons, ih, Std.ExtTreeMap.contains_insert]
    simp only [Bool.or_eq_true, beq_iff_eq, Std.compare_eq_iff_eq, List.mem_cons]
    constructor
    · rintro ((rfl | held) | later)
      · exact .inr (.inl rfl)
      · exact .inl held
      · exact .inr (.inr later)
    · rintro (held | (rfl | later))
      · exact .inl (.inr held)
      · exact .inl (.inl rfl)
      · exact .inr later

theorem retire_contains (node : RaftNode) (old new : BTreeSet NodeId) (terminal : Nat) (id : NodeId) :
    (node.retire (old.toList.filter fun id => !new.contains id) terminal).contains id =
      (node.retiringPeers.contains id || (old.contains id && !new.contains id && id != node.id)) := by
  rw [Bool.eq_iff_iff]
  unfold retire
  rw [foldl_insert_contains]
  simp [and_left_comm, and_comm]

structure Alike (live replayed : RaftNode) (projection : Projection) (routes : Routes) : Prop where
  carries : live.Carries projection
  carries' : replayed.Carries projection
  sameId : replayed.id = live.id
  retired : ∀ id, replayed.retiringPeers.contains id = routes.retired id
  addresses : ∀ id, replayed.addresses[id]? =
    if routes.dropped id then Option.none else live.addresses[id]?

namespace Alike
variable (alike : Alike live replayed projection routes)
include alike

theorem settle {live' replayed' : RaftNode} {projection' : Projection} {id : NodeId}
    (carries : live'.Carries projection') (carries' : replayed'.Carries projection')
    (same : live'.id = live.id) (same' : replayed'.id = replayed.id)
    (retiring : replayed'.retiringPeers = replayed.retiringPeers)
    (here : replayed'.addresses[id]? = live'.addresses[id]?)
    (others : ∀ other, other ≠ id → live'.addresses[other]? = live.addresses[other]? ∧
      replayed'.addresses[other]? = replayed.addresses[other]?) :
    Alike live' replayed' projection' (routes.settle id) := by
  refine ⟨carries, carries', same'.trans (alike.sameId.trans same.symm), ?_, ?_⟩
  · intro other
    rw [retiring]
    exact alike.retired other
  · intro other
    by_cases equal : other = id
    · subst equal
      simpa [Routes.settle] using here
    · obtain ⟨one, two⟩ := others other equal
      rw [one, two, alike.addresses other]
      simp [Routes.settle, equal]

theorem still {live' replayed' : RaftNode} {projection' : Projection}
    (carries : live'.Carries projection') (carries' : replayed'.Carries projection')
    (same : live'.id = live.id) (same' : replayed'.id = replayed.id)
    (retiring : replayed'.retiringPeers = replayed.retiringPeers) (addresses : live'.addresses = live.addresses)
    (addresses' : replayed'.addresses = replayed.addresses) : Alike live' replayed' projection' routes := by
  refine ⟨carries, carries', same'.trans (alike.sameId.trans same.symm), ?_, ?_⟩
  · intro id
    rw [retiring]
    exact alike.retired id
  · intro id
    rw [addresses, addresses']
    exact alike.addresses id

theorem append {entry : Entry} (config : entry.kind.isConfig) (done : live.applyConfigOnAppend entry = .ok next) :
    ∃ envelope, entry.envelope? = some envelope ∧
      Alike next (replayed.replayOperation entry.index envelope.operation) (projection.entry entry)
        (routes.entry live.id projection entry) := by
  have carries := applyConfigOnAppend_entry config alike.carries done
  have body := (applyConfigOnAppend_body done).1
  unfold applyConfigOnAppend at done
  cases decoded : entry.envelope? with
  | none => simp [decoded] at done
  | some envelope =>
    have carries' := replayOperation_carries alike.carries' entry.index envelope.operation
    have body' := (replayOperation_body replayed entry.index envelope.operation).1
    have applied : projection.entry entry = projection.apply entry.index envelope.operation := by
      simp [Projection.entry, config, decoded]
    have routed : routes.entry live.id projection entry =
        routes.apply live.id projection envelope.operation := by
      simp [Routes.entry, config, decoded]
    rw [applied] at carries
    rw [applied, routed]
    refine ⟨envelope, rfl, ?_⟩
    rw [decoded] at done
    dsimp only at done
    cases operation : envelope.operation with
    | addLearner id address =>
      rw [operation] at done carries carries'
      dsimp only at done
      split at done <;> cases done
      cases address with
      | none => exact alike.still carries carries' rfl rfl rfl rfl rfl
      | some address =>
        refine alike.settle carries carries' rfl rfl rfl ?_ ?_
        · simp [replayOperation]
        · intro other differs
          simp [replayOperation, Std.ExtTreeMap.getElem?_insert, Ne.symm differs]
    | removeLearner id =>
      rw [operation] at done carries carries'
      dsimp only at done
      split at done <;> cases done
      refine alike.settle carries carries' rfl rfl rfl ?_ ?_
      · simp [replayOperation]
      · intro other differs
        simp [replayOperation, Std.ExtTreeMap.getElem?_erase, Ne.symm differs]
    | updateAddress id address =>
      rw [operation] at done carries carries'
      dsimp only at done
      split at done <;> cases done
      refine alike.settle carries carries' rfl rfl rfl ?_ ?_
      · simp [replayOperation]
      · intro other differs
        simp [replayOperation, Std.ExtTreeMap.getElem?_insert, Ne.symm differs]
    | enterJoint newVoters
    | beginLeaderTransfer target
    | finishLeaderTransfer index result
    | activateFeature feature =>
      rw [operation] at done carries carries'
      dsimp only at done
      split at done <;> cases done
      exact alike.still carries carries' rfl rfl rfl rfl rfl
    | leaveJoint index =>
      rw [operation] at done carries carries'
      dsimp only at done
      split at done
      · cases done
      next old new isJoint =>
        split at done <;> cases done
        next same =>
          have opened := alike.carries.joint.symm.trans isJoint
          have entered : replayed.jointEnterIndex = some index := by
            rw [alike.carries'.enterIndex, ← alike.carries.enterIndex]
            exact not_ne_iff.mp same
          have joint := alike.carries'.joint.trans opened
          have retired : ∀ id,
              (replayed.retire (old.toList.filter fun id => !new.contains id) entry.index).contains id =
                (routes.leave live.id old new projection.learners).retired id := by
            intro id
            rw [retire_contains, alike.retired, alike.sameId]
            rfl
          simp only [replayOperation, entered, if_true, joint] at carries' ⊢
          simp only [Routes.apply, opened]
          refine ⟨carries, carries', alike.sameId, retired, ?_⟩
          intro id
          dsimp only
          rw [Std.ExtTreeMap.getElem?_filter', alike.addresses id, retired id, alike.carries'.learners]
          -- the filter keeps what the new voters, the learners and the retired ones need
          have stays : (routes.leave live.id old new projection.learners).dropped id =
              (routes.dropped id || !(new.contains id || projection.learners.contains id ||
                (routes.leave live.id old new projection.learners).retired id)) := rfl
          rw [stays]
          generalize live.addresses[id]? = held
          cases new.contains id || projection.learners.contains id ||
            (routes.leave live.id old new projection.learners).retired id with
          | true => cases routes.dropped id <;> cases held <;> rfl
          | false => simp

end Alike

theorem acceptAll_alike {log : List Entry} (alike : Alike live replayed projection routes)
    (accepted : live.acceptAll log = .ok next) :
    Alike next (replayed.replayEntries (log.filter fun entry => entry.kind.isConfig))
      (log.foldl Projection.entry projection) (Routes.along live.id projection routes log) := by
  induction log generalizing live replayed projection routes with
  | nil =>
    rw [acceptAll] at accepted
    obtain rfl := Except.ok.inj accepted
    exact alike
  | cons entry rest ih =>
    rw [acceptAll] at accepted
    rw [List.foldl_cons, Routes.along]
    by_cases config : entry.kind.isConfig
    · rw [if_pos config] at accepted
      split at accepted
      · cases accepted
      next projected done =>
        obtain ⟨envelope, decoded, step⟩ := alike.append config done
        have same : projected.id = live.id := (applyConfigOnAppend_body done).1.id
        have pushed : Alike { projected with log := projected.log ++ [entry] }
            (replayed.replayOperation entry.index envelope.operation) (projection.entry entry)
            (routes.entry live.id projection entry) := { step with carries := { step.carries with } }
        rw [List.filter_cons, if_pos config, replayEntries, decoded, ← same]
        rw [← same] at pushed
        have later := ih pushed accepted
        exact later
    · rw [if_neg config] at accepted
      rw [List.filter_cons, if_neg config]
      have unmoved : projection.entry entry = projection := by simp [Projection.entry, config]
      have still : routes.entry live.id projection entry = routes := by simp [Routes.entry, config]
      have pushed : Alike { live with log := live.log ++ [entry] } replayed projection routes :=
        { alike with carries := { alike.carries with } }
      rw [unmoved, still]
      have later := ih pushed accepted
      exact later

structure SameBase (before after : RaftNode) : Prop where
  id : after.id = before.id
  activeFeatures : after.activeFeatures = before.activeFeatures
  baseVoters : after.baseVoters = before.baseVoters
  baseLearners : after.baseLearners = before.baseLearners
  baseJoint : after.baseJoint = before.baseJoint
  baseJointEnterIndex : after.baseJointEnterIndex = before.baseJointEnterIndex
  baseAddresses : after.baseAddresses = before.baseAddresses
  baseActiveFeatures : after.baseActiveFeatures = before.baseActiveFeatures

theorem SameBase.refl (node : RaftNode) : SameBase node node := by constructor <;> rfl

theorem SameBase.trans {middle : RaftNode} (one : SameBase node middle) (two : SameBase middle next) :
    SameBase node next where
  id := two.id.trans one.id
  activeFeatures := two.activeFeatures.trans one.activeFeatures
  baseVoters := two.baseVoters.trans one.baseVoters
  baseLearners := two.baseLearners.trans one.baseLearners
  baseJoint := two.baseJoint.trans one.baseJoint
  baseJointEnterIndex := two.baseJointEnterIndex.trans one.baseJointEnterIndex
  baseAddresses := two.baseAddresses.trans one.baseAddresses
  baseActiveFeatures := two.baseActiveFeatures.trans one.baseActiveFeatures

theorem applyConfigOnAppend_base {entry : Entry} (done : node.applyConfigOnAppend entry = .ok next) :
    SameBase node next := by
  unfold applyConfigOnAppend at done
  split at done
  · cases done
  · split at done <;> (try dsimp only at done) <;> (try split at done) <;> (try split at done) <;>
      cases done <;> exact { SameBase.refl node with }

theorem acceptAll_base {log : List Entry} (accepted : node.acceptAll log = .ok next) :
    SameBase node next ∧ next.log = node.log ++ log := by
  induction log generalizing node with
  | nil =>
    rw [acceptAll] at accepted
    obtain rfl := Except.ok.inj accepted
    exact ⟨.refl node, by simp⟩
  | cons entry rest ih =>
    rw [acceptAll] at accepted
    split at accepted
    · split at accepted
      · cases accepted
      next projected done =>
        have base := applyConfigOnAppend_base done
        have log := (applyConfigOnAppend_body done).1.log
        obtain ⟨later, grown⟩ := ih accepted
        have pushed : SameBase node { projected with log := projected.log ++ [entry] } :=
          { base with }
        exact ⟨pushed.trans later, by rw [grown, log, List.append_assoc]; rfl⟩
    · obtain ⟨later, grown⟩ := ih accepted
      have pushed : SameBase node { node with log := node.log ++ [entry] } :=
        { SameBase.refl node with }
      exact ⟨pushed.trans later, by rw [grown, List.append_assoc]; rfl⟩

theorem resyncTransferFinishing_base (node : RaftNode) : SameBase node node.resyncTransferFinishing := by
  unfold resyncTransferFinishing
  split
  · exact .refl node
  · dsimp only
    split
    · exact { SameBase.refl node with }
    · exact .refl node

theorem restored_alike {origin start : RaftNode} {base : MembershipState}
    (restored : origin.restoreMembershipState base = (start, .ok ())) (grown : SameBase start node) :
    Alike start node.resyncTransferFinishing.resetMembership (.genesis base) .none ∧
      start.id = origin.id ∧ start.log = origin.log ∧ node.activeFeatures = node.baseActiveFeatures := by
  have kept := grown.trans (resyncTransferFinishing_base node)
  unfold restoreMembershipState at restored
  split at restored
  · cases restored
  obtain rfl := (Prod.mk.inj restored).1
  refine ⟨⟨⟨rfl, rfl, rfl, rfl⟩, ⟨kept.baseVoters, kept.baseLearners, kept.baseJoint,
    kept.baseJointEnterIndex⟩, kept.id, ?_, ?_⟩, rfl, rfl, ?_⟩
  · intro id
    rfl
  · intro id
    have addresses : node.resyncTransferFinishing.resetMembership.addresses = base.addresses :=
      kept.baseAddresses
    rw [addresses]
    rfl
  · exact grown.activeFeatures.trans grown.baseActiveFeatures.symm

theorem membershipState_address (node : RaftNode) (id : NodeId) : node.membershipState.addresses[id]? =
      if node.voters.contains id || node.learners.contains id then node.addresses[id]? else none := by
  unfold membershipState
  dsimp only
  rw [Std.ExtTreeMap.getElem?_filter']
  generalize node.addresses[id]? = held
  cases node.voters.contains id || node.learners.contains id <;> cases held <;> rfl

/-- The public projections are equal exactly if no member with an address has lost its
route to a rebuild. -/
theorem Alike.membershipState_iff (alike : Alike live replayed projection routes)
    (features : replayed.activeFeatures = live.activeFeatures) : (live.membershipState = replayed.membershipState ↔
      ∀ id, live.voters.contains id || live.learners.contains id → live.addresses.contains id →
        routes.dropped id = false) ∧ { live.membershipState with addresses := replayed.membershipState.addresses } =
      replayed.membershipState := by
  have voters := alike.carries'.voters.trans alike.carries.voters.symm
  have learners := alike.carries'.learners.trans alike.carries.learners.symm
  have joint := alike.carries'.joint.trans alike.carries.joint.symm
  have enterIndex := alike.carries'.enterIndex.trans alike.carries.enterIndex.symm
  have rest : { live.membershipState with addresses := replayed.membershipState.addresses } =
      replayed.membershipState := by
    unfold membershipState
    rw [voters, learners, joint, enterIndex, features]
  refine ⟨?_, rest⟩
  have only : live.membershipState = replayed.membershipState ↔
      live.membershipState.addresses = replayed.membershipState.addresses := by
    constructor
    · intro same
      rw [same]
    · intro same
      rw [← rest, ← same]
  rw [only]
  constructor
  · intro same id member held
    have here := congrArg (fun addresses => addresses[id]?) same
    rw [membershipState_address, membershipState_address, voters, learners, if_pos member, if_pos member,
      alike.addresses id] at here
    rw [← Std.ExtTreeMap.isSome_getElem?_eq_contains, here] at held
    cases dropped : routes.dropped id with
    | false => rfl
    | true => simp [dropped] at held
  · intro kept
    apply Std.ExtTreeMap.ext_getElem?
    intro id
    rw [membershipState_address, membershipState_address, voters, learners, alike.addresses id]
    by_cases member : live.voters.contains id || live.learners.contains id
    · rw [if_pos member, if_pos member]
      cases held : live.addresses[id]? with
      | none => simp
      | some address =>
        have listed : live.addresses.contains id := by
          rw [← Std.ExtTreeMap.isSome_getElem?_eq_contains, held]
          rfl
        rw [kept id member listed]
        rfl
    · rw [if_neg member, if_neg member]

end RaftNode

/-- The routes that a rebuild of this log on this base drops at the node `self`. -/
def droppedRoutes (base : MembershipState) (self : NodeId) (log : List Entry) :
    NodeId → Bool :=
  (Routes.along self (.genesis base) .none log).dropped

section Equivalence
variable {origin start node : RaftNode} {base : MembershipState} {log : List Entry}

/-- The membership of every accepted log is the rebuilt one, exactly if no member has
an address that a rebuild drops; voters, learners and the joint configuration always
are. After a truncation it is the membership at that index. -/
theorem rebuilt_membership_iff (restored : origin.restoreMembershipState base = (start, .ok ()))
    (fresh : origin.log = []) (accepted : start.acceptAll log = .ok node) :
    (node.membershipState = node.rebuildMembershipFromLog.membershipState ↔
      ∀ id, node.voters.contains id || node.learners.contains id → node.addresses.contains id →
        droppedRoutes base origin.id log id = false) ∧ { node.membershipState with
      addresses := node.rebuildMembershipFromLog.membershipState.addresses } =
        node.rebuildMembershipFromLog.membershipState ∧
    ∀ index, (node.truncateSuffix (index + 1)).membershipState = node.membershipStateAt index := by
  obtain ⟨grown, length⟩ := RaftNode.acceptAll_base accepted
  obtain ⟨origins, id, empty, features⟩ := RaftNode.restored_alike restored grown
  have alike := RaftNode.acceptAll_alike origins accepted
  have whole : node.log = log := by rw [length, empty, fresh, List.nil_append]
  have rebuilt : node.rebuildMembershipFromLog.membershipState =
      (node.resyncTransferFinishing.resetMembership.replayEntries
        (log.filter fun entry => entry.kind.isConfig)).membershipState := by
    unfold RaftNode.rebuildMembershipFromLog
    rw [whole]
    rfl
  have replayed := (RaftNode.replayEntries_body node.resyncTransferFinishing.resetMembership
    (log.filter fun entry => entry.kind.isConfig)).2.2.1
  have based : node.resyncTransferFinishing.resetMembership.activeFeatures = node.activeFeatures :=
    (RaftNode.resyncTransferFinishing_base node).baseActiveFeatures.trans features.symm
  obtain ⟨same, rest⟩ := alike.membershipState_iff (replayed.trans based)
  rw [id] at same
  rw [rebuilt]
  refine ⟨same, rest, ?_⟩
  · intro index
    unfold RaftNode.membershipStateAt RaftNode.truncateSuffix
    simp only [Nat.lt_succ_iff]

end Equivalence

def routedPair : MembershipState where
  voters := Std.ExtTreeSet.ofList [1, 2] compare
  learners := ∅
  joint := none
  addresses := Std.ExtTreeMap.ofList [(1, .v4 ⟨[10, 0, 0, 1], rfl⟩ 7), (2, .v4 ⟨[10, 0, 0, 2], rfl⟩ 7)] compare
  activeFeatures := 0

def configEntry (index : Nat) (operation : ConfigOperation) : Entry :=
  ⟨1, index, .config, (⟨none, 0, operation⟩ : ConfigEnvelope).encode⟩

def departure : List Entry :=
  [configEntry 1 (.enterJoint (Std.ExtTreeSet.ofList [2] compare)), configEntry 2 (.leaveJoint 1)]

def routedNode (self : NodeId) (log : List Entry) : Except RaftError RaftNode :=
  ((RaftNode.new self routedPair.voters 1 .default).restoreMembershipState routedPair).1.acceptAll log

def returned (address : Option PeerAddress) : List Entry :=
  departure ++ [configEntry 3 (.addLearner 1 address)]

theorem rebuilt_membership_iff_returned :
    (routedNode 1 (returned (some (.v4 ⟨[10, 0, 0, 3], rfl⟩ 7)))).toOption.isSome ∧
    (routedNode 1 (returned (some (.v4 ⟨[10, 0, 0, 3], rfl⟩ 7)))).toOption.map RaftNode.membershipState =
      (routedNode 1 (returned (some (.v4 ⟨[10, 0, 0, 3], rfl⟩ 7)))).toOption.map fun node =>
        node.rebuildMembershipFromLog.membershipState := by
  have members : (routedNode 1 (returned (some (.v4 ⟨[10, 0, 0, 3], rfl⟩ 7)))).toOption.map
      (fun node => (node.voters, node.learners)) =
        some (Std.ExtTreeSet.ofList [2] compare, Std.ExtTreeSet.ofList [1] compare) := by
    decide +kernel
  cases accepted : routedNode 1 (returned (some (.v4 ⟨[10, 0, 0, 3], rfl⟩ 7))) with
  | error error =>
    rw [accepted] at members
    cases members
  | ok node =>
    rw [accepted] at members
    obtain ⟨voters, learners⟩ := Prod.mk.inj (Option.some.inj members)
    have restored : (RaftNode.new 1 routedPair.voters 1 .default).restoreMembershipState routedPair =
        (((RaftNode.new 1 routedPair.voters 1 .default).restoreMembershipState routedPair).1, .ok ()) :=
      Prod.ext rfl (by decide +kernel)
    refine ⟨rfl, congrArg some ((rebuilt_membership_iff restored rfl accepted).1.mpr ?_)⟩
    intro id member _
    rw [voters, learners] at member
    have cases : 2 = id ∨ 1 = id := by simpa using member
    rcases cases with rfl | rfl <;> decide +kernel

/-- The node still publishes the address it had before it left; the rebuild has
dropped it. -/
theorem returned_node_keeps_old_route : (routedNode 1 (returned none)).toOption.map (fun node =>
      (node.membershipState.addresses.contains 1,
        node.rebuildMembershipFromLog.membershipState.addresses.contains 1)) = some (true, false) := by
  decide +kernel

end CrashCourse.Raft
