import CrashCourse.Raft.Reconfiguration

/-!
A candidacy is an observation of the next term, a request and the node's own vote; taking
office is an election followed by the append of the no-op.
-/

namespace CrashCourse.Raft
open CrashCourse.Core Consensus

variable {group : Group} {history : History NodeId Entry} {node : RaftNode}

theorem getElem?_insertAll (peers : List NodeId) (value : Nat) (map : BTreeMap NodeId Nat)
    (key : NodeId) : (peers.foldl (fun progress peer => progress.insert peer value) map)[key]? =
      if key ∈ peers then some value else map[key]? := by
  induction peers generalizing map with
  | nil => simp
  | cons peer rest ih =>
    rw [List.foldl_cons, ih, Std.ExtTreeMap.getElem?_insert]
    by_cases later : key ∈ rest
    · simp [later]
    · by_cases here : peer = key
      · simp [here]
      · simp [later, here, Ne.symm here]

namespace RaftNode

def tidy (node : RaftNode) : Bool :=
  (node.nextIndex.keys ++ node.matchIndex.keys).all fun peer =>
    node.voters.contains peer || node.learners.contains peer

def Resets (node : RaftNode) (peer : NodeId) : Prop :=
  peer ∈ node.nextIndex ∨ peer ∈ node.matchIndex → peer ∈ node.voters ∨ peer ∈ node.learners

theorem resets_of_tidy (tidy : node.tidy) (peer : NodeId) : node.Resets peer := by
  intro record
  have member : peer ∈ node.nextIndex.keys ++ node.matchIndex.keys := by
    simpa using record
  have known := List.all_eq_true.mp tidy peer member
  simpa using known

theorem Resets.member {peer : NodeId} (reset : node.Resets peer) (other : peer ≠ node.id)
    (record : peer ∈ node.nextIndex ∨ peer ∈ node.matchIndex) :
    peer ∈ (node.voters.toList ++ node.learners.toList).filter (· != node.id) := by
  simpa [other] using reset record

theorem resetProgress_next {peer : NodeId} {next index : Nat} (reset : node.Resets peer)
    (other : peer ≠ node.id) (here : (node.resetProgress next).nextIndex[peer]? = some index) : index = next := by
  unfold resetProgress at here
  rw [getElem?_insertAll] at here
  split at here
  · exact (Option.some.inj here).symm
  next missing =>
    exact absurd (reset.member other (.inl (Std.ExtTreeMap.mem_iff_isSome_getElem?.mpr (by rw [here]; rfl)))) missing

theorem resetProgress_match {peer : NodeId} {next index : Nat} (reset : node.Resets peer)
    (other : peer ≠ node.id) (here : (node.resetProgress next).matchIndex[peer]? = some index) : index = 0 := by
  unfold resetProgress at here
  rw [getElem?_insertAll] at here
  split at here
  · exact (Option.some.inj here).symm
  next missing =>
    exact absurd (reset.member other (.inr (Std.ExtTreeMap.mem_iff_isSome_getElem?.mpr (by rw [here]; rfl)))) missing

end RaftNode

theorem RaftNode.resetElection_claims (node : RaftNode) (now : Nat) :
    node.SameClaims (node.resetElection now) := { SameClaims.refl node with }

theorem RaftNode.memberRole_passive (node : RaftNode) : node.memberRole ≠ .leader ∧ node.memberRole ≠ .candidate := by
  unfold memberRole
  split <;> simp

/-- The node asked for votes in its term, and a quorum of its configuration granted
them. -/
def Wins (group : Group) (history : History NodeId Entry) (node : RaftNode) : Prop :=
  ∃ asked, history.requested node.hardState.term node.id = some asked ∧
    (rules group).quorum asked (history.voters node.hardState.term node.id)

theorem Follows.simulates {id : NodeId} {middle : History NodeId Entry} {first : List RaftEffect}
    {outcome : RaftNode.Step} (one : Follows group id history (first.flatMap RaftEffect.atoms) middle)
    (two : Simulates group middle id outcome) : Simulates group history id (outcome.1, first ++ outcome.2) := by
  obtain ⟨after, follows, rest⟩ := two
  refine ⟨after, ?_, rest⟩
  rw [List.flatMap_append]
  exact one.append follows

section Office
variable (inv : History.Inv (rules group) history) (refines : Refines group history node)
include inv refines

omit inv in
theorem Refines.wins (free : ¬ group.fixed) (candidate : node.role = .candidate)
    (own : node.id ∈ node.votes) (majority : node.hasMajority node.votes) : Wins group history node :=
  ⟨node.log, refines.asked candidate own free,
    refines.carries.quorum_of_hasMajority majority (refines.voted candidate)⟩

theorem Refines.wins_of_fixed (fixed : group.fixed) (candidate : node.role = .candidate)
    (voter : NodeId) (voted : voter ∈ node.votes) (majority : node.hasMajority node.votes) :
    Wins group history node := by
  obtain ⟨grant, granted, same⟩ := refines.voted candidate voter voted
  obtain ⟨asked, requested, _⟩ := inv.ballots.granted_asked granted
  rw [same] at requested
  refine ⟨asked, requested, ?_⟩
  have quorum := refines.carries.quorum_of_hasMajority majority (refines.voted candidate)
  rw [(refines.plain inv fixed).project] at quorum
  have valid := inv.leaders.sound_valid (inv.ballots.requested_sound requested)
  change (project group.membership asked).Quorum _
  rw [(valid.2 fixed).project]
  exact quorum

theorem Refines.elect (wins : Wins group history node) : ∃ after start,
    History.Steps (rules group) node.id history after ∧ Untouched history after node.id ∧
      after.elected node.hardState.term = some (node.id, start) := by
  obtain ⟨asked, requested, won⟩ := wins
  cases led : history.elected node.hardState.term with
  | some leader =>
    obtain ⟨leader, start⟩ := leader
    obtain rfl := inv.election_unique requested won led
    exact ⟨history, start, .refl, .refl history _, led⟩
  | none =>
    rw [← refines.term] at requested won led
    obtain rfl := inv.ballots.requested_log requested led
    refine ⟨history.elect node.id, history.log node.id, .single (.elect led requested won),
      ⟨rfl, rfl, rfl⟩, ?_⟩
    rw [← refines.term]
    simp [History.elect]

theorem Refines.takeOffice (wins : Wins group history node) (tidy : ¬ group.fixed → node.tidy) :
    ∃ after, History.Steps (rules group) node.id history after ∧
      Explains group history after node.id (.persistEntries [node.noopEntry]) ∧
      Refines group after node.takeOffice ∧ Leads group after node.takeOffice := by
  obtain ⟨middle, start, steps, same, elected⟩ := refines.elect inv wins
  have reached := History.Steps.inv inv steps
  have standing := refines.along inv steps same
  have index : node.noopEntry.index = node.log.length + 1 := by
    rw [← refines.lastIndex inv]; rfl
  have acceptable : Acceptable group.membership node.log node.noopEntry :=
    ⟨index, fun config => nomatch config⟩
  have certified := standing.certified_append reached elected acceptable
    fun _ _ config => nomatch config
  have step := standing.pushStep reached elected rfl acceptable (fun _ => rfl) certified
  have steps' := steps.tail step
  have elected' := (step.grows reached.ballots reached.leaders).elected elected
  have longer : start.length ≤ node.log.length := by
    obtain ⟨own, split, _⟩ := reached.leaders.leaderLog_own elected
    rw [← standing.leaderLog reached elected, split, List.length_append]
    omega
  let elect : RaftNode :=
    { node with role := .leader, leaderId := some node.id, log := node.log ++ [node.noopEntry] }
  have last : elect.lastIndex = node.log.length + 1 := by
    simp [elect, RaftNode.lastIndex, index]
  have reset : ∀ {peer}, group.Watches peer → elect.Resets peer := by
    intro peer watched record
    by_cases fixed : group.fixed
    · have plain := (refines.plain inv fixed).project group.membership
      rw [show elect.voters = _ from refines.carries.voters,
        show elect.learners = _ from refines.carries.learners, plain]
      exact watched fixed
    · exact RaftNode.resets_of_tidy (tidy fixed) peer record
  have leads : Leads group (middle.append node.id node.noopEntry) node.takeOffice := by
    refine ⟨⟨start, elected', ?_⟩, ?_, ?_⟩
    · change start.length < (node.log ++ [node.noopEntry]).length
      rw [List.length_append, List.length_singleton]
      omega
    · intro peer recorded watched other here
      have zero := @RaftNode.resetProgress_match elect peer (elect.lastIndex + 1) _ (reset watched)
        other here
      omega
    · intro peer recorded watched other here
      have next := @RaftNode.resetProgress_next elect peer (elect.lastIndex + 1) _ (reset watched)
        other here
      rw [last] at next
      exact .inl ⟨node.id, start, elected', by omega⟩
  refine ⟨_, steps', ⟨same.term, same.vote, ?_⟩, ?_, leads⟩
  · simp [History.append, same.log]
  · refine standing.pushed reached step { RaftNode.SameGround.refl node with } rfl rfl ?_
      (fun _ => leads) (by simp [RaftNode.takeOffice, RaftNode.resetProgress])
      refines.retired
    rw [project_append_plain _ _ rfl]
    exact { refines.carries with }

theorem Refines.becomeLeader (wins : Wins group history node) (tidy : ¬ group.fixed → node.tidy) :
    Simulates group history node.id node.becomeLeader := by
  obtain ⟨middle, steps, explained, office, officeLeads⟩ := refines.takeOffice inv wins tidy
  have reached := History.Steps.inv inv steps
  obtain ⟨after, follows, advanced, leads⟩ := office.advanceCommit reached officeLeads
  have reached' := History.Steps.inv reached follows.steps
  obtain ⟨commitIndex, appliedIndex, kept⟩ := node.takeOffice.advanceCommit_eq
  have first : Follows group node.id history
      ((.persistEntries [node.noopEntry] :: node.takeOffice.advanceCommit.2).flatMap
        RaftEffect.atoms) after := .cons steps explained follows
  have role : node.takeOffice.advanceCommit.1.role = .leader := by rw [kept]; rfl
  have id : node.takeOffice.advanceCommit.1.id = node.id := by rw [kept]; rfl
  have settled := advanced.settleTransfer reached' leads role
  rw [id] at settled
  unfold RaftNode.becomeLeader
  dsimp only
  cases owes : node.takeOffice.advanceCommit.1.owedLeave with
  | none => exact first.simulates settled
  | some envelope =>
    dsimp only
    obtain ⟨index, isOpen⟩ : ∃ index, node.takeOffice.advanceCommit.1.jointEnterIndex = some index := by
      cases isOpen : node.takeOffice.advanceCommit.1.jointEnterIndex with
      | none => simp [RaftNode.owedLeave, isOpen] at owes
      | some index => exact ⟨index, rfl⟩
    have appended := advanced.appendConfig reached' leads role
      (advanced.free_of_joint reached' isOpen) envelope (RaftNode.owedLeave_owed owes)
    rw [id] at appended
    split
    next after' finish done =>
      rw [done] at appended
      exact first.simulates appended
    next after' error done =>
      have same := RaftNode.appendConfig_error (congrArg Prod.snd done)
      rw [done] at same
      dsimp only at same
      rw [same]
      exact first.simulates settled

def RaftNode.campaign (node : RaftNode) : RaftNode :=
  { node with
    role := .candidate
    hardState := ⟨node.hardState.term + 1, some node.id⟩
    votes := (∅ : BTreeSet NodeId).insert node.id }

theorem Refines.campaign : ∃ after, History.Steps (rules group) node.id history after ∧
    Explains group history after node.id (.persistHard node.campaign.hardState) ∧ Refines group after node.campaign ∧
    after.requested node.campaign.hardState.term node.id = some node.log := by
  have term := refines.term
  have observed : History.Step (rules group) history node.id
      (history.observe node.id (node.hardState.term + 1)) := .observe (by omega)
  set first := history.observe node.id (node.hardState.term + 1) with firstDef
  have firstTerm : first.term node.id = node.hardState.term + 1 := by simp [firstDef, History.observe]
  have asked : History.Step (rules group) first node.id (first.request node.id) := by
    refine .request (by omega) ?_ ?_
    · rw [firstTerm]
      by_contra present
      obtain ⟨log, already⟩ := Option.ne_none_iff_exists'.mp present
      have := inv.ballots.requested_bound (show history.requested _ _ = some log from already)
      omega
    · intro entry member
      have := inv.leaders.log_bound (show entry ∈ history.log node.id from member)
      omega
  set second := first.request node.id with secondDef
  have secondTerm : second.term node.id = node.hardState.term + 1 := firstTerm
  have requested : second.requested (node.hardState.term + 1) node.id = some node.log := by
    rw [← firstTerm, ← refines.log]
    simp [secondDef, History.request, firstDef, History.observe]
  have voted : History.Step (rules group) second node.id (second.grant node.id node.id) := by
    refine .grant ?_ (secondTerm ▸ requested) ?_
    · simp [secondDef, History.request, firstDef, History.observe]
    · rw [show second.log node.id = node.log from refines.log]
      exact .inr ⟨rfl, le_rfl⟩
  have steps : History.Steps (rules group) node.id history (second.grant node.id node.id) :=
    .tail (.tail (.single observed) asked) voted
  have vote : (second.grant node.id node.id).vote node.id = some node.id := by
    simp [History.grant]
  refine ⟨_, steps, ⟨secondTerm, vote, rfl⟩, ?_, requested⟩
  refine refines.ground { RaftNode.SameGround.refl node with } secondTerm vote
    (History.Steps.settles inv steps) refines.log { refines.carries with } (fun leader => by cases leader)
    (fun _ _ _ => requested) ?_ ?_ ?_
  · intro _ voter member
    have self : node.id = voter := by simpa [RaftNode.campaign] using member
    subst self
    refine ⟨⟨node.id, second.log node.id, (second.elected (second.term node.id)).isSome⟩, ?_, rfl⟩
    change (second.grant node.id node.id).granted (node.hardState.term + 1) node.id = _
    rw [← secondTerm]
    simp [History.grant]
  · exact (refines.decided.grow (History.Steps.grows inv steps)).mono (Nat.le_succ _)
  · exact refines.retired

theorem Refines.startElection
    (tidy : node.hasMajority ((∅ : BTreeSet NodeId).insert node.id) → ¬ group.fixed → node.tidy) :
    Simulates group history node.id node.startElection := by
  unfold RaftNode.startElection
  split
  · refine ⟨history, .refl history, refines.claims { RaftNode.SameClaims.refl node with
      votes := fun candidate => nomatch candidate
      role := .inr (by simp) }, rfl⟩
  obtain ⟨after, steps, explained, campaigns, requested⟩ := refines.campaign inv
  have reached := History.Steps.inv inv steps
  dsimp only
  split
  next majority =>
    have wins : Wins group after node.campaign := ⟨node.log, requested,
      campaigns.carries.quorum_of_hasMajority majority (campaigns.voted rfl)⟩
    obtain ⟨last, follows, rest⟩ := campaigns.becomeLeader reached wins (tidy majority)
    exact ⟨last, .cons steps explained follows, rest⟩
  next =>
    refine ⟨after, .cons steps explained (Follows.quiet _ ?_), campaigns, rfl⟩
    intro effect member
    obtain ⟨peer, _, rfl⟩ := List.mem_map.mp member
    exact ⟨node.log, requested, campaigns.lastIndex reached, campaigns.lastTerm⟩

theorem Refines.startPreVote (now : Nat)
    (tidy : node.hasMajority ((∅ : BTreeSet NodeId).insert node.id) → ¬ group.fixed → node.tidy) :
    Simulates group history node.id (node.startPreVote now) := by
  unfold RaftNode.startPreVote
  split
  · have passive : node.SameClaims { node with role := .learner, preVotes := ∅, votes := ∅ } :=
      { RaftNode.SameClaims.refl node with
        votes := fun candidate => nomatch candidate
        role := .inr (by simp) }
    exact ⟨history, .refl history,
      (refines.claims passive).claims (RaftNode.resetElection_claims _ now), rfl⟩
  -- a pre-vote candidate has counted no vote yet
  have candidate : Refines group history
      { node with
        role := .candidate
        preVotes := (∅ : BTreeSet NodeId).insert node.id
        votes := ∅ } := by
    refine refines.ground { RaftNode.SameGround.refl node with } refines.term refines.vote
      (fun settles => settles) refines.log { refines.carries with } (fun leader => nomatch leader) (fun _ own => ?_)
      (fun _ voter member => ?_) refines.decided refines.retired
    · simp at own
    · simp at member
  have waiting := candidate.claims (RaftNode.resetElection_claims _ now)
  dsimp only
  split
  next majority => exact waiting.startElection inv fun alone => tidy alone
  next =>
    refine ⟨history, Follows.quiet _ ?_, waiting, rfl⟩
    intro effect member
    obtain ⟨peer, _, rfl⟩ := List.mem_map.mp member
    exact trivial

theorem Refines.upToDate {log : List Entry} (newer : node.logIsUpToDate log.length ((rules group).lastTerm log)) :
    (rules group).UpToDate log node.log := by
  unfold RaftNode.logIsUpToDate at newer
  rw [refines.lastTerm, refines.lastIndex inv, Bool.or_eq_true, Bool.and_eq_true,
    decide_eq_true_eq, decide_eq_true_eq, beq_iff_eq] at newer
  rcases newer with newer | ⟨same, longer⟩
  · exact .inl newer
  · exact .inr ⟨same.symm, longer⟩

theorem Refines.vote_for {candidate : NodeId} {log : List Entry}
    (free : node.hardState.votedFor = none ∨ node.hardState.votedFor = some candidate)
    (requested : history.requested node.hardState.term candidate = some log)
    (newer : (rules group).UpToDate log node.log) : ∃ after, History.Steps (rules group) node.id history after ∧
      after.term node.id = node.hardState.term ∧ after.vote node.id = some candidate ∧
      after.log node.id = history.log node.id ∧
      node.id ∈ after.voters node.hardState.term candidate := by
  have term := refines.term
  have vote := refines.vote
  rcases free with free | already
  · have step : History.Step (rules group) history node.id (history.grant node.id candidate) := by
      refine .grant (vote.trans free) (term ▸ requested) ?_
      rw [refines.log]
      exact newer
    refine ⟨_, .single step, term, by simp [History.grant], rfl,
      ⟨⟨candidate, history.log node.id, (history.elected (history.term node.id)).isSome⟩, ?_, rfl⟩⟩
    rw [← term]
    simp [History.grant]
  · obtain ⟨grant, granted, same⟩ := inv.ballots.vote_granted (vote.trans already)
    exact ⟨history, .refl, term, vote.trans already, rfl, grant, term ▸ granted, same⟩

theorem Refines.voteRequest {message : Message} {lastIndex lastTerm : Nat} (now : Nat)
    (kind : message.kind = .voteReq lastIndex lastTerm) (truthful : Truthful group history message) :
    Simulates group history node.id (node.voteRequest message lastIndex lastTerm now) := by
  unfold Truthful at truthful
  rw [kind] at truthful
  obtain ⟨log, requested, rfl, rfl⟩ := truthful
  unfold RaftNode.voteRequest
  dsimp only
  split
  next granted =>
    simp only [Bool.and_eq_true, beq_iff_eq] at granted
    obtain ⟨⟨⟨⟨current, _⟩, free⟩, _⟩, newer⟩ := granted
    have free : node.hardState.votedFor = none ∨ node.hardState.votedFor = some message.sender := by
      cases vote : node.hardState.votedFor with
      | none => exact .inl rfl
      | some candidate => exact .inr (by simpa [vote] using free)
    rw [current] at requested
    obtain ⟨after, steps, term, vote, kept, member⟩ :=
      refines.vote_for inv free requested (refines.upToDate inv newer)
    have grows := History.Steps.grows inv steps
    have voted : Refines group after
        { node with hardState := { node.hardState with votedFor := some message.sender } } := by
      refine refines.ground { RaftNode.SameGround.refl node with } term vote
        (History.Steps.settles inv steps) (kept.trans refines.log) { refines.carries with }
        (fun leader => { (refines.leads leader).along inv steps with })
        (fun candidate own free => grows.requested (refines.asked candidate own free))
        (fun candidate voter known => grows.voters _ _ (refines.voted candidate voter known))
        (refines.decided.grow grows) refines.retired
    refine ⟨after, .cons steps ⟨term, vote, kept⟩ (.single .refl ⟨.refl after node.id, ?_⟩),
      voted.claims (RaftNode.resetElection_claims _ now), rfl⟩
    exact fun _ => member
  next refused =>
    refine ⟨history, .single .refl ⟨.refl history node.id, ?_⟩, refines, rfl⟩
    exact fun granted => absurd granted refused

theorem Refines.observeTerm (message : Message) : Simulates group history node.id (node.observeTerm message) := by
  unfold RaftNode.observeTerm
  split
  next newer =>
    rw [Bool.and_eq_true, decide_eq_true_eq] at newer
    have step : History.Step (rules group) history node.id
        (history.observe node.id message.term) := .observe (refines.term ▸ newer.1)
    have term : (history.observe node.id message.term).term node.id = message.term := by
      simp [History.observe]
    have vote : (history.observe node.id message.term).vote node.id = none := by
      simp [History.observe]
    refine ⟨_, .single (.single step) ⟨term, vote, rfl⟩, ?_, rfl⟩
    refine refines.ground { RaftNode.SameGround.refl node with } term vote (.step inv step)
      refines.log { refines.carries with } (fun leader => absurd leader node.memberRole_passive.1)
      (fun candidate => absurd candidate node.memberRole_passive.2)
      (fun candidate => absurd candidate node.memberRole_passive.2) ?_ refines.retired
    exact (refines.decided.grow (step.grows inv.ballots inv.leaders)).mono newer.1.le
  next => exact ⟨history, .refl history, refines, rfl⟩

end Office
end CrashCourse.Raft
