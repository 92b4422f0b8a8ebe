import CrashCourse.Raft.Refinement

/-!
The leader's side of replication.
-/

namespace CrashCourse.Raft
open CrashCourse.Core Consensus

variable {group : Group} {history : History NodeId Entry} {node : RaftNode}

variable {log : List Entry}

theorem Numbered.filter_from (numbered : Numbered 0 log) (next : Nat) :
    (log.filter fun entry => decide (entry.index ≥ next)) = log.drop (next - 1) := by
  cases next with
  | zero => simp
  | succ count => simpa using numbered.filter_ge count

theorem project_append_plain (membership : MembershipState) (log : List Entry) {entry : Entry}
    (plain : entry.kind.isConfig = false) : project membership (log ++ [entry]) = project membership log := by
  simp [Projection.entry, plain]

theorem collectCommitted_position (numbered : Numbered 0 log) {entry : Entry} :
    ∀ {fuel applied : Nat}, entry ∈ RaftNode.collectCommitted log fuel applied →
      ∃ position, log[position]? = some entry ∧ position < applied + fuel ∧ 0 < fuel
  | 0, _, member => by simp [RaftNode.collectCommitted] at member
  | fuel + 1, applied, member => by
      have found := numbered.find_index applied
      rw [Nat.zero_add] at found
      rw [RaftNode.collectCommitted, found] at member
      cases here : log[applied]? with
      | none => simp [here] at member
      | some first =>
        rw [here] at member
        rcases List.mem_cons.mp member with rfl | member
        · exact ⟨applied, here, by omega⟩
        · obtain ⟨position, at_, bound, _⟩ := collectCommitted_position numbered member
          exact ⟨position, at_, by omega⟩

theorem termOf_some {index : Nat} {term : Nat} (positive : 0 < index) (here : termOf log index = some term) :
    ∃ pre entry, pre ++ [entry] <+: log ∧ pre.length + 1 = index ∧ entry.term = term := by
  obtain ⟨position, rfl⟩ := Nat.exists_eq_succ_of_ne_zero positive.ne'
  obtain ⟨entry, at_, same⟩ := Option.map_eq_some_iff.mp here
  obtain ⟨inside, rfl⟩ := List.getElem?_eq_some_iff.mp at_
  refine ⟨log.take position, log[position], ?_, by simp [inside.le], same⟩
  rw [List.take_concat_get' log position inside]
  exact List.take_prefix _ _

section Leader
variable (inv : History.Inv (rules group) history)
  (refines : Refines group history node)
include inv refines

variable {start : List Entry} {entry : Entry} {next : RaftNode}

theorem Refines.leaderLog (elected : history.elected node.hardState.term = some (node.id, start)) :
    history.leaderLog node.hardState.term = node.log := by
  rw [← refines.term] at elected ⊢
  rw [← inv.leaders.leaderLog_log elected, refines.log]

theorem Refines.sendAppend (leads : Leads group history node) {peer : NodeId} (watched : group.Watches peer) :
    ∀ effect ∈ node.sendAppend peer, Quiet group history effect := by
  intro effect member
  simp only [RaftNode.sendAppend, List.mem_singleton] at member
  subst member
  obtain ⟨start, elected, longer⟩ := leads.elected
  refine ⟨start, node.log, elected, longer, ?_, ?_, ?_, ?_, refines.decided⟩
  · rw [refines.leaderLog inv elected]
  · by_cases self : peer = node.id
    · -- a leader is in step with itself
      subst self
      refine .inr (.of_follows refines.term.ge fun _ => ⟨by rw [elected]; rfl, ?_⟩)
      rw [refines.leaderLog inv elected, refines.log]
    · cases next : node.nextIndex[peer]? with
      | none =>
        refine .inl ⟨node.id, start, elected, ?_⟩
        simpa [refines.lastIndex inv] using longer.le
      | some index => simpa using leads.aimed watched self next
  · rw [refines.termAt inv]
  · rw [(refines.numbered inv).filter_from, refines.config]

theorem Refines.sendAppends (leads : Leads group history node) {peers : List NodeId}
    (watched : ∀ peer ∈ peers, group.Watches peer) :
    ∀ effect ∈ peers.flatMap node.sendAppend, Quiet group history effect := by
  intro effect member
  obtain ⟨peer, here, member⟩ := List.mem_flatMap.mp member
  exact refines.sendAppend inv leads (watched peer here) effect member

theorem Refines.broadcastAppend (leads : Leads group history node) :
    ∀ effect ∈ node.broadcastAppend, Quiet group history effect := by
  refine refines.sendAppends inv leads fun peer member => refines.watches inv ?_
  simpa [RaftNode.replicationTargets, or_assoc] using List.mem_of_mem_filter member

/-- The configuration after an acceptable entry is certified, when a joint membership
is left only once its entry is committed. -/
theorem Refines.certified_append (elected : history.elected node.hardState.term = some (node.id, start))
    (acceptable : Acceptable group.membership node.log entry)
    (owed : ∀ envelope index, entry.kind.isConfig → entry.envelope? = some envelope →
      envelope.operation = .leaveJoint index → node.jointEnterIndex = some index → index ≤ node.commitIndex) :
    history.Certified (rules group) history.commits node.hardState.term
      (node.log ++ [entry]) := by
  have valid := refines.valid inv
  have grows := List.prefix_append node.log [entry]
  have ofDecided : history.Decided node.hardState.term node.log
      (project group.membership (node.log ++ [entry])).anchor →
      history.Certified (rules group) history.commits node.hardState.term
        (node.log ++ [entry]) := fun decided => (decided.of_start grows).2
  have kept : (project group.membership (node.log ++ [entry])).anchor =
      (project group.membership node.log).anchor →
      history.Certified (rules group) history.commits node.hardState.term
        (node.log ++ [entry]) := by
    intro same
    apply ofDecided
    rw [same]
    exact ⟨valid.anchor_le, inv.commits.certified (by rw [refines.leaderLog inv elected])⟩
  by_cases config : entry.kind.isConfig
  swap
  · exact kept (by rw [project_append_plain _ _ (by simpa using config)])
  cases acceptable.moves with
  | keeps _ _ _ anchor _ _ => exact kept anchor
  | enters _ _ _ _ _ _ _ _ _ anchor _ => exact kept anchor
  | leaves old new was envelope decoded index operation open_ _ _ anchor _ _ =>
    apply ofDecided
    rw [anchor]
    rcases valid.shape.pending old new was with ⟨zero, _⟩ | ⟨_, entered, _⟩
    · rw [zero]; exact .zero
    · obtain rfl : index = (project group.membership node.log).entered :=
        Option.some.inj (open_.symm.trans entered)
      refine refines.decided.less (owed envelope _ config decoded operation ?_)
      rw [refines.carries.enterIndex, entered]

theorem Refines.pushStep (elected : history.elected node.hardState.term = some (node.id, start))
    (current : entry.term = node.hardState.term) (acceptable : Acceptable group.membership node.log entry)
    (plain : group.fixed → entry.kind.isConfig = false)
    (certified : history.Certified (rules group) history.commits node.hardState.term (node.log ++ [entry])) :
    History.Step (rules group) history node.id (history.append node.id entry) := by
  refine .append (refines.term ▸ elected) ?_ ?_ ?_
  · rw [refines.term]; exact current
  · rw [refines.log]
    refine ⟨(refines.valid inv).append acceptable, fun fixed => ?_⟩
    have before := refines.plain inv fixed
    intro other member
    rcases List.mem_append.mp member with member | member
    · exact before other member
    · rw [List.mem_singleton.mp member]
      exact plain fixed
  · rw [refines.term, refines.log]; exact certified

theorem Refines.pushed (step : History.Step (rules group) history node.id (history.append node.id entry))
    (same : node.SameGround next) (hard : next.hardState = node.hardState) (log : next.log = node.log ++ [entry])
    (carries : next.Carries (project group.membership (node.log ++ [entry])))
    (leads : next.role = .leader → Leads group (history.append node.id entry) next) (passive : next.role ≠ .candidate)
    (retired : group.fixed → next.retiringPeers = ∅) : Refines group (history.append node.id entry) next := by
  refine refines.ground same (by rw [same.id, hard]; exact refines.term)
    (by rw [same.id, hard]; exact refines.vote) (.step inv step) ?_ (log ▸ carries) leads
    (fun candidate => absurd candidate passive) (fun candidate => absurd candidate passive) ?_ retired
  · simp [History.append, same.id, log, refines.log]
  · rw [hard, same.commitIndex, log]
    exact (refines.decided.grow (step.grows inv.ballots inv.leaders)).of_start
      (List.prefix_append _ _)

omit refines in
theorem Leads.push (leads : Leads group history node)
    (step : History.Step (rules group) history node.id (history.append node.id entry)) (same : node.SameGround next)
    (hard : next.hardState = node.hardState) (log : next.log = node.log ++ [entry])
    (nextIndex : next.nextIndex = node.nextIndex) (matchIndex : next.matchIndex = node.matchIndex) :
    Leads group (history.append node.id entry) next := by
  have along := leads.along inv (.single step)
  obtain ⟨start, elected, longer⟩ := along.elected
  refine ⟨⟨start, ?_, ?_⟩, ?_, ?_⟩
  · rw [same.id, hard]; exact elected
  · rw [log, List.length_append]; omega
  · rw [same.id, hard, matchIndex]; exact along.matched
  · rw [same.id, hard, nextIndex]; exact along.aimed

/-- The leader pushes an entry that its log admits; `next` is the node after its
projection. -/
theorem Refines.push (leads : Leads group history node) (role : node.role = .leader) (body : node.SameBody next)
    (transfer : next.transfer = node.transfer) (features : next.activeFeatures = node.activeFeatures)
    (carries : next.Carries (project group.membership (node.log ++ [entry])))
    (current : entry.term = node.hardState.term) (acceptable : Acceptable group.membership node.log entry)
    (plain : group.fixed → entry.kind.isConfig = false)
    (certified : history.Certified (rules group) history.commits node.hardState.term (node.log ++ [entry]))
    (retiring : BTreeMap NodeId RetiringPeer) (retired : group.fixed → retiring = ∅) :
    History.Step (rules group) history node.id (history.append node.id entry) ∧
      Explains group history (history.append node.id entry) node.id (.persistEntries [entry]) ∧
      Refines group (history.append node.id entry)
        { next with log := next.log ++ [entry], retiringPeers := retiring } ∧
      Leads group (history.append node.id entry)
        { next with log := next.log ++ [entry], retiringPeers := retiring } := by
  obtain ⟨start, elected, _⟩ := leads.elected
  have step := refines.pushStep inv elected current acceptable plain certified
  have same : node.SameGround
      { next with log := next.log ++ [entry], retiringPeers := retiring } :=
    { body with
      activeFeatures := .inl features
      transfer := congrArg (Option.map LeadershipTransfer.intentIndex) transfer }
  have log : next.log ++ [entry] = node.log ++ [entry] := by rw [body.log]
  have leads' := leads.push inv step same body.hardState log body.nextIndex body.matchIndex
  refine ⟨step, ⟨rfl, rfl, by simp [History.append]⟩, ?_, leads'⟩
  refine refines.pushed inv step same body.hardState log { carries with } (fun _ => leads') ?_ retired
  rcases body.role with kept | follower
  · simp [kept, role]
  · simp [follower]

theorem Refines.applyCommitted :
    Follows group node.id history (node.applyCommitted.2.flatMap RaftEffect.atoms) history ∧
      Refines group history node.applyCommitted.1 := by
  refine ⟨?_, refines.claims { RaftNode.SameClaims.refl node with }⟩
  unfold RaftNode.applyCommitted
  dsimp only
  split
  · exact .refl history
  refine .single .refl ⟨.refl history node.id, fun entry member => ?_⟩
  obtain ⟨position, here, bound, _⟩ := collectCommitted_position (refines.numbered inv) member
  obtain ⟨inside, rfl⟩ := List.getElem?_eq_some_iff.mp here
  refine ⟨node.log.take position, ?_, ?_⟩
  · rw [refines.log, List.take_concat_get' node.log position inside]
    exact List.take_prefix _ _
  · rw [refines.term, refines.log, List.length_take, min_eq_left inside.le]
    exact refines.decided.less (by omega)

theorem Refines.advanceCommit (leads : Leads group history node) :
    ∃ after, Follows group node.id history (node.advanceCommit.2.flatMap RaftEffect.atoms) after ∧
      Refines group after node.advanceCommit.1 ∧ Leads group after node.advanceCommit.1 := by
  unfold RaftNode.advanceCommit
  split
  next moved =>
    rcases node.committable_cases with same | member
    · omega
    obtain ⟨-, bound, term, quorum⟩ := node.mem_committables.mp member
    obtain ⟨start, elected, longer⟩ := leads.elected
    rw [refines.termAt inv] at term
    rw [refines.lastIndex inv] at bound
    obtain ⟨pre, entry, inside, here, current⟩ := termOf_some (by omega) term
    rw [← refines.term] at elected current
    rw [← refines.log] at inside
    have sameLog := inv.leaders.leaderLog_log elected
    -- the leader vouches for its own log, then commits
    have self : History.Step (rules group) history node.id
        (history.acknowledge node.id node.log.length) := by
      refine .acknowledge (by rw [elected]; rfl) (by rw [refines.log]) ?_
      rw [← sameLog]
      exact List.take_prefix _ _
    have inv' := self.inv inv
    have grows := self.grows inv.ballots inv.leaders
    have commit : History.Step (rules group) (history.acknowledge node.id node.log.length)
        node.id ((history.acknowledge node.id node.log.length).commit node.id (pre.length + 1)) := by
      refine .commit elected inside current ?_
      change (project group.membership (history.log node.id)).Quorum _
      rw [refines.log, here]
      refine refines.carries.quorum_of_commitQuorum quorum fun member voter holds => ?_
      unfold RaftNode.holdsIndex at holds
      rw [Bool.or_eq_true, beq_iff_eq] at holds
      by_cases self : member = node.id
      · subst self
        change _ ≤ (history.acknowledge node.id node.log.length).acked _ _
        simp only [History.acknowledge, History.update_pair_apply]
        simp
        omega
      · cases recorded : node.matchIndex[member]? with
        | none => simp [self, recorded] at holds
        | some index =>
          have reached : node.committable ≤ index := by simpa [self, recorded] using holds
          have watched : group.Watches member := fun fixed =>
            refines.watches inv (.inl (voter (refines.settled inv fixed))) fixed
          refine reached.trans ((leads.matched watched self recorded).trans ?_)
          rw [← refines.term]
          exact grows.acked _ _
    have steps : History.Steps (rules group) node.id history
        ((history.acknowledge node.id node.log.length).commit node.id (pre.length + 1)) :=
      .tail (.single self) commit
    have grows' := History.Steps.grows inv steps
    have moved : Refines group
        ((history.acknowledge node.id node.log.length).commit node.id (pre.length + 1))
        { node with commitIndex := node.committable } := by
      refine (refines.along inv steps ⟨rfl, rfl, rfl⟩).commitTo ?_
      refine ⟨bound, .inr ⟨_, List.mem_cons_self, ?_, here.ge, ?_⟩⟩
      · change history.term node.id ≤ node.hardState.term
        exact refines.term.le
      · change node.log.take node.committable <+: history.leaderLog (history.term node.id)
        rw [← sameLog, refines.log]
        exact List.take_prefix _ _
    obtain ⟨follows, applied⟩ := moved.applyCommitted (commit.inv inv')
    exact ⟨_, follows.silent steps ⟨rfl, rfl, rfl⟩, applied, { leads.along inv steps with }⟩
  next => exact ⟨history, .refl history, refines, leads⟩

end Leader

theorem RaftNode.advanceCommit_eq (node : RaftNode) : ∃ commitIndex appliedIndex,
    node.advanceCommit.1 = { node with commitIndex, appliedIndex } := by
  unfold advanceCommit applyCommitted
  split
  · exact ⟨_, _, rfl⟩
  · exact ⟨node.commitIndex, node.appliedIndex, rfl⟩

end CrashCourse.Raft
