import CrashCourse.Raft.Followers

/-!
Every call a host makes is followed by the history, unless it counts a vote for a
candidacy not opened in the term, or takes office with progress records of former members.
-/

namespace CrashCourse.Raft
open CrashCourse.Core Consensus

variable {group : Group} {history : History NodeId Entry} {node : RaftNode}

theorem Refines.progress {after : RaftNode} (refines : Refines group history node)
    (role : node.role = .leader) (same : node.SameGround after)
    (hard : after.hardState = node.hardState) (log : after.log = node.log)
    (carries : after.Carries (project group.membership node.log)) (kept : after.role = .leader)
    (retired : group.fixed → after.retiringPeers = ∅) (matched : ∀ {peer index}, group.Watches peer → peer ≠ node.id →
      after.matchIndex[peer]? = some index → index ≤ history.acked node.hardState.term peer)
    (aimed : ∀ {peer index}, group.Watches peer → peer ≠ node.id →
      after.nextIndex[peer]? = some index → history.Aim node.hardState.term peer (index - 1)) :
    Refines group history after := by
  have leads : Leads group history after := by
    refine ⟨?_, ?_, ?_⟩
    · rw [hard, same.id, log]; exact (refines.leads role).elected
    · rw [hard, same.id]; exact matched
    · rw [hard, same.id]; exact aimed
  refine refines.ground same ?_ ?_ (fun settles => settles) ?_ (log ▸ carries) (fun _ => leads)
    (fun candidate => ?_) (fun candidate => ?_) ?_ retired
  · rw [same.id, hard, refines.term]
  · rw [same.id, hard, refines.vote]
  · rw [same.id, log, refines.log]
  · rw [kept] at candidate; cases candidate
  · rw [kept] at candidate; cases candidate
  · rw [hard, log, same.commitIndex]; exact refines.decided

variable {response : AppendResponse}

theorem Refines.recordMatch (refines : Refines group history node) (role : node.role = .leader) {peer : NodeId}
    (acked : response.matchIndex ≤ history.acked node.hardState.term peer)
    (probe : history.Probe node.hardState.term peer response.matchIndex) :
    Refines group history (node.recordMatch peer response) := by
  have leads := refines.leads role
  refine refines.progress role { RaftNode.SameGround.refl node with } rfl rfl
    { refines.carries with } role refines.retired ?_ ?_
  · intro other index watched apart here
    simp only [RaftNode.recordMatch, Std.ExtTreeMap.getElem?_insert] at here
    split at here
    next same =>
      obtain rfl : peer = other := by simpa using same
      obtain rfl := Option.some.inj here
      exact acked
    next => exact leads.matched watched apart here
  · intro other index watched apart here
    simp only [RaftNode.recordMatch, Std.ExtTreeMap.getElem?_insert] at here
    split at here
    next same =>
      obtain rfl : peer = other := by simpa using same
      obtain rfl := Option.some.inj here
      exact .inr probe
    next => exact leads.aimed watched apart here

theorem RaftNode.countReadAck_claims (node : RaftNode) (peer : NodeId) (response : AppendResponse) :
    node.SameClaims (node.countReadAck peer response).1 ∧
      (node.countReadAck peer response).1.role = node.role ∧
      ∀ effect ∈ (node.countReadAck peer response).2, ∃ index, effect = .readBarrierReady index := by
  unfold countReadAck
  generalize (if node.voters.contains peer && response.readRound == node.readRound then
    node.readAcks.insert peer else node.readAcks) = acks
  dsimp only
  split
  · split
    · exact ⟨{ SameClaims.refl node with }, rfl, by simp⟩
    · exact ⟨{ SameClaims.refl node with }, rfl, by simp⟩
  · exact ⟨{ SameClaims.refl node with }, rfl, by simp⟩

theorem RaftNode.transferReady_quiet (node : RaftNode) (peer : NodeId) (response : AppendResponse) :
    ∀ effect ∈ node.transferReady peer response, Quiet group history effect := by
  unfold transferReady
  split
  · split
    · simp [timeoutNowEffect, Quiet, Truthful]
    · simp
  · simp

theorem Refines.appendResponseFromPeer (inv : History.Inv (rules group) history)
    (refines : Refines group history node) (role : node.role = .leader) {peer : NodeId} (known : group.Watches peer)
    (truthful : TruthfulResponse history node.hardState.term peer response) :
    Simulates group history node.id (node.appendResponseFromPeer peer response) ∧
      (node.appendResponseFromPeer peer response).1.role = .leader := by
  unfold RaftNode.appendResponseFromPeer
  unfold TruthfulResponse at truthful
  split
  next success =>
    rw [if_pos success] at truthful
    have recorded := refines.recordMatch role truthful.1 truthful.2
    obtain ⟨after, follows, advanced, leads⟩ :=
      recorded.advanceCommit inv (recorded.leads role)
    have reached := History.Steps.inv inv follows.steps
    obtain ⟨commitIndex, appliedIndex, kept⟩ := (node.recordMatch peer response).advanceCommit_eq
    have advancedRole : (node.recordMatch peer response).advanceCommit.1.role = .leader := by
      rw [kept]; exact role
    have advancedId : (node.recordMatch peer response).advanceCommit.1.id = node.id := by
      rw [kept]; rfl
    dsimp only
    generalize (node.recordMatch peer response).advanceCommit.1 = middle at *
    obtain ⟨same, sameRole, ready⟩ := middle.countReadAck_claims peer response
    have counted := advanced.claims same
    refine ⟨⟨after, ?_, counted, same.id.trans advancedId⟩, sameRole.trans advancedRole⟩
    rw [List.append_assoc, List.append_assoc, List.flatMap_append]
    refine follows.append (Follows.quiet _ fun effect member => ?_)
    simp only [List.mem_append] at member
    rcases member with member | member | member
    · obtain ⟨index, rfl⟩ := ready effect member
      trivial
    · exact RaftNode.transferReady_quiet _ _ _ effect member
    · split at member
      · exact counted.sendAppend reached (leads.claims same) known effect member
      · simp at member
  next failure =>
    rw [if_neg failure] at truthful
    have leads := refines.leads role
    have moved : Refines group history
        { node with nextIndex := node.nextIndex.insert peer (max response.conflictIndex 1) } := by
      refine refines.progress role { RaftNode.SameGround.refl node with } rfl rfl
        { refines.carries with } role refines.retired leads.matched ?_
      intro other index watched apart here
      simp only [Std.ExtTreeMap.getElem?_insert] at here
      split at here
      next same =>
        obtain rfl : peer = other := by simpa using same
        obtain rfl := Option.some.inj here
        exact .inr truthful
      next => exact leads.aimed watched apart here
    exact ⟨⟨history, Follows.quiet _ (moved.sendAppend inv (moved.leads role) known), moved, rfl⟩, role⟩

def RaftEffect.writes : RaftEffect → Bool
  | .persistHard _ | .persistEntries _ | .truncateSuffix _ => true
  | _ => false

theorem Follows.drop {id : NodeId} {before after : History NodeId Entry} {effects : List RaftEffect}
    (follows : Follows group id before (effects.flatMap RaftEffect.atoms) after)
    (readOnly : ∀ effect ∈ effects, effect.writes = false) : Follows group id before [] after := by
  refine .done follows.steps ?_
  induction effects generalizing before with
  | nil =>
    cases follows with
    | done _ same => exact same
  | cons effect rest ih =>
    have here := readOnly effect List.mem_cons_self
    have atom : effect.atoms = [effect] := by
      cases effect <;> first | rfl | cases here
    rw [List.flatMap_cons, atom, List.singleton_append] at follows
    cases follows with
    | @cons _ middle _ _ _ steps explained later =>
      have same := ih later fun other member => readOnly other (List.mem_cons_of_mem _ member)
      have first : Untouched before middle id := by
        cases effect with
        | send message | apply entries => exact explained.1
        | persistHard hard | persistEntries entries | truncateSuffix index => cases here
        | _ => exact explained
      exact ⟨same.term.trans first.term, same.vote.trans first.vote, same.log.trans first.log⟩

theorem RaftNode.appendResponseFromPeer_readOnly (node : RaftNode) (peer : NodeId) (response : AppendResponse) :
    ∀ effect ∈ (node.appendResponseFromPeer peer response).2, effect.writes = false := by
  have sends : ∀ (node : RaftNode), ∀ effect ∈ node.sendAppend peer, effect.writes = false := by
    intro node effect member
    simp only [sendAppend, List.mem_singleton] at member
    rw [member]; rfl
  have advances : ∀ (node : RaftNode), ∀ effect ∈ node.advanceCommit.2, effect.writes = false := by
    intro node effect member
    unfold advanceCommit applyCommitted at member
    dsimp only at member
    split at member
    · split at member
      · simp at member
      · rw [List.mem_singleton.mp member]; rfl
    · simp at member
  have transfers : ∀ (node : RaftNode), ∀ effect ∈ node.transferReady peer response,
      effect.writes = false := by
    intro node effect member
    unfold transferReady at member
    split at member
    · split at member
      · rw [List.mem_singleton.mp member]; rfl
      · simp at member
    · simp at member
  unfold appendResponseFromPeer
  split
  · intro effect member
    simp only [List.mem_append] at member
    rcases member with ((member | member) | member) | member
    · exact advances _ effect member
    · obtain ⟨index, rfl⟩ := (countReadAck_claims _ peer response).2.2 effect member
      rfl
    · exact transfers _ effect member
    · split at member
      · exact sends _ effect member
      · simp at member
  · exact sends _

theorem Refines.appendResponse (inv : History.Inv (rules group) history) (refines : Refines group history node)
    {message : Message} (now : Nat) (kind : message.kind = .appendResp response)
    (truthful : Truthful group history message) :
    Simulates group history node.id (node.appendResponse message response now) := by
  unfold RaftNode.appendResponse
  split
  · exact ⟨history, .refl history, refines, rfl⟩
  next counted =>
    simp only [Bool.or_eq_true, decide_eq_true_eq, not_or, not_not] at counted
    obtain ⟨⟨role, current⟩, known⟩ := counted
    have known : group.Watches message.sender := by
      refine refines.watches inv ?_
      simp only [Bool.and_eq_true, Bool.not_eq_true', not_and, Bool.not_eq_false] at known
      by_cases voter : node.voters.contains message.sender
      · exact .inl (Std.ExtTreeSet.contains_iff_mem.mp voter)
      · by_cases learner : node.learners.contains message.sender
        · exact .inr (.inl (Std.ExtTreeSet.contains_iff_mem.mp learner))
        · exact .inr (.inr (Std.ExtTreeMap.contains_iff_mem.mp
            (known ⟨Bool.eq_false_iff.mpr voter, Bool.eq_false_iff.mpr learner⟩)))
    unfold Truthful at truthful
    rw [kind, current] at truthful
    have direct := (refines.appendResponseFromPeer inv role known truthful).1
    split
    next success =>
      have contact : node.SameClaims
          { node with lastContact := node.lastContact.insert message.sender now } :=
        { RaftNode.SameClaims.refl node with }
      have heard := refines.claims contact
      have answered := heard.appendResponseFromPeer inv role known truthful
      dsimp only
      split
      next retiring found =>
        split
        · obtain ⟨⟨after, follows, refines', id⟩, _⟩ := answered
          exact ⟨after, follows.drop (RaftNode.appendResponseFromPeer_readOnly _ _ _), refines', id⟩
        split
        · have retired : RaftNode.SameClaims
              { node with lastContact := node.lastContact.insert message.sender now }
              { node with
                lastContact := node.lastContact.insert message.sender now
                retiringPeers := node.retiringPeers.insert message.sender
                  { retiring with farewellSent := true } } :=
            { RaftNode.SameClaims.refl _ with
              retiringPeers := fun none => by
                rw [show node.retiringPeers = ∅ from none] at found
                simp at found }
          have sent := heard.claims retired
          exact ⟨history, Follows.quiet _ (sent.sendAppend inv (sent.leads role) known), sent, rfl⟩
        · have leads := heard.leads role
          refine ⟨history, .refl history, heard.progress role
            { RaftNode.SameGround.refl node with } rfl rfl { heard.carries with } role
            (fun fixed => by simp [refines.retired fixed] at found) ?_ ?_, rfl⟩
          · intro peer index watched apart here
            simp only [Std.ExtTreeMap.getElem?_erase] at here
            split at here
            · cases here
            · exact leads.matched watched apart here
          · intro peer index watched apart here
            simp only [Std.ExtTreeMap.getElem?_erase] at here
            split at here
            · cases here
            · exact leads.aimed watched apart here
      next => exact answered.1
    next => exact direct

namespace RaftNode

def alone (node : RaftNode) : Bool := node.hasMajority ((∅ : BTreeSet NodeId).insert node.id)

def countsVote (node : RaftNode) (message : Message) : Bool :=
  message.kind == .voteResp true && node.role == .candidate
    && message.term == node.hardState.term

def takesOffice (node : RaftNode) : Call → Bool
  | .tick _ | .onTimer _ _ => node.role != .leader && node.alone
  | .onMessageAt message _ =>
    match message.kind with
    | .voteResp _ =>
      node.countsVote message && node.hasMajority (node.votes.insert message.sender)
    | .preVoteResp granted => granted && node.alone
    | .timeoutNow intentIndex => node.timeoutNowValid message intentIndex && node.alone
    | _ => false
  | _ => false

/-- A pre-vote candidate has cleared its votes and not added its own, and counts a
vote of the term. -/
def countsLateVote (node : RaftNode) : Call → Bool
  | .onMessageAt message _ => node.countsVote message && !node.votes.contains node.id
  | _ => false

end RaftNode

section Messages
variable (inv : History.Inv (rules group) history) (refines : Refines group history node)
include inv refines

variable {message : Message}

theorem Refines.countVote (now : Nat) (target : message.target = node.id) (truthful : Truthful group history message)
    (counts : node.countsVote message) (own : group.fixed ∨ node.countsLateVote (.onMessageAt message now) = false)
    (tidy : node.takesOffice (.onMessageAt message now) → ¬ group.fixed → node.tidy) : Simulates group history node.id
      (if ({ node with votes := node.votes.insert message.sender } : RaftNode).hasMajority
          (node.votes.insert message.sender) then
        ({ node with votes := node.votes.insert message.sender } : RaftNode).becomeLeader
      else ({ node with votes := node.votes.insert message.sender }, [])) := by
  have counts' := counts
  unfold RaftNode.countsVote at counts'
  simp only [Bool.and_eq_true, beq_iff_eq] at counts'
  obtain ⟨⟨kind, candidate⟩, current⟩ := counts'
  have late : group.fixed ∨ node.id ∈ node.votes := by
    refine own.imp_right fun late => ?_
    simpa [RaftNode.countsLateVote, counts] using late
  unfold Truthful at truthful
  rw [kind, current, target] at truthful
  have counted : Refines group history
      { node with votes := node.votes.insert message.sender } := by
    refine refines.ground { RaftNode.SameGround.refl node with } refines.term refines.vote
      (fun settles => settles) refines.log { refines.carries with }
      (fun leader => by rw [candidate] at leader; cases leader) (fun _ _ free => ?_)
      (fun _ voter member => ?_) refines.decided refines.retired
    · exact refines.asked candidate (late.resolve_left free) free
    · rcases Std.ExtTreeSet.mem_insert.mp member with same | member
      · obtain rfl : message.sender = voter := by simpa using same
        exact truthful rfl
      · exact refines.voted candidate voter member
  split
  next majority =>
    have wins : Wins group history
        { node with votes := node.votes.insert message.sender } := by
      by_cases fixed : group.fixed
      · exact counted.wins_of_fixed inv fixed candidate message.sender (by simp) majority
      · exact counted.wins fixed candidate
          (Std.ExtTreeSet.mem_insert.mpr (.inr (late.resolve_left fixed))) majority
    refine counted.becomeLeader inv wins (tidy ?_)
    simp only [RaftNode.takesOffice, kind, counts, Bool.true_and]
    exact majority
  next => exact ⟨history, .refl history, counted, rfl⟩

omit inv in
theorem Refines.quietly (effects : List RaftEffect) (quiet : ∀ effect ∈ effects, Quiet group history effect) :
    Simulates group history node.id (node, effects) :=
  ⟨history, Follows.quiet effects quiet, refines, rfl⟩

theorem Refines.dispatch (now : Nat) (target : message.target = node.id)
    (bound : RaftNode.observesTerm message.kind → message.term ≤ node.hardState.term)
    (truthful : Truthful group history message)
    (own : group.fixed ∨ node.countsLateVote (.onMessageAt message now) = false)
    (tidy : node.takesOffice (.onMessageAt message now) → ¬ group.fixed → node.tidy) :
    Simulates group history node.id (node.dispatch message now) := by
  unfold RaftNode.dispatch
  split
  next lastIndex lastTerm kind =>
    exact refines.quietly _ (by simp [RaftNode.preVoteResponse, Quiet, Truthful])
  next granted kind =>
    split
    next counts =>
      have voted : node.SameClaims
          { node with preVotes := node.preVotes.insert message.sender } :=
        { RaftNode.SameClaims.refl node with }
      have refines' := refines.claims voted
      dsimp only
      split
      · refine refines'.startElection inv fun alone => tidy ?_
        simp only [Bool.and_eq_true] at counts
        simp only [RaftNode.takesOffice, kind, counts.2, Bool.true_and]
        exact alone
      · exact ⟨history, .refl history, refines', rfl⟩
    · exact refines.quietly [] (by simp)
  next lastIndex lastTerm kind => exact refines.voteRequest inv now kind truthful
  next granted kind =>
    split
    next counts =>
      refine refines.countVote inv now target truthful ?_ own tidy
      simp only [Bool.and_eq_true, decide_eq_true_eq, beq_iff_eq] at counts
      simp [RaftNode.countsVote, kind, counts]
    · exact refines.quietly [] (by simp)
  next request kind =>
    exact refines.appendRequest inv now kind target (bound (by rw [kind]; rfl)) truthful
  next response kind => exact refines.appendResponse inv now kind truthful
  next chunk kind =>
    refine refines.quietly _ fun effect member => ?_
    unfold RaftNode.snapshotChunk RaftNode.snapshotAckEffect at member
    dsimp only at member
    split at member
    · rw [List.mem_singleton.mp member]; trivial
    · split at member
      · rw [List.mem_singleton.mp member]; trivial
      · split at member <;> (rw [List.mem_singleton.mp member]; trivial)
  next transferId nextOffset accepted reason kind =>
    dsimp only
    have heard : node.SameClaims
        (if accepted && message.term == node.hardState.term then
          { node with lastContact := node.lastContact.insert message.sender now } else node) := by
      split
      · exact { RaftNode.SameClaims.refl node with }
      · exact .refl node
    refine ⟨history, Follows.quiet _ ?_, refines.claims heard, heard.id⟩
    simp [Quiet]
  next intentIndex kind =>
    split
    next valid =>
      refine refines.startElection inv fun alone => tidy ?_
      simp only [RaftNode.takesOffice, kind, valid, Bool.true_and]
      exact alone
    · exact refines.quietly _ (by simp [Quiet])
  next requestId commandHash kind =>
    split <;> exact refines.quietly _ (by simp [Quiet])
  next requestId commandHash readIndex readTime kind =>
    split <;> exact refines.quietly _ (by simp [Quiet])

omit inv refines in
/-- Whoever observes a newer term counts no vote and starts no election with the
same message. -/
theorem RaftNode.observeTerm_spec (node : RaftNode) (message : Message) : (node.observeTerm message = (node, []) ∧
        (observesTerm message.kind → message.term ≤ node.hardState.term)) ∨
      ((node.observeTerm message).1.hardState.term = message.term ∧
        ∀ now, (node.observeTerm message).1.takesOffice (.onMessageAt message now) = false ∧
          (node.observeTerm message).1.countsLateVote (.onMessageAt message now) = false) := by
  unfold observeTerm
  split
  next newer =>
    rw [Bool.and_eq_true] at newer
    have passive := node.memberRole_passive.2
    refine .inr ⟨rfl, fun now => ⟨?_, ?_⟩⟩
    · unfold takesOffice
      dsimp only
      split
      · simp [countsVote, passive]
      next granted kind => simp [observesTerm, kind] at newer
      next intentIndex kind => simp [timeoutNowValid]
      · rfl
    · simp [countsLateVote, countsVote, passive]
  next older =>
    refine .inl ⟨rfl, fun observes => ?_⟩
    simpa [observes] using older

theorem Refines.onMessageAt (now : Nat) (target : message.target = node.id)
    (truthful : Truthful group history message)
    (own : group.fixed ∨ node.countsLateVote (.onMessageAt message now) = false)
    (tidy : node.takesOffice (.onMessageAt message now) → ¬ group.fixed → node.tidy) :
    Simulates group history node.id (node.onMessageAt message now) := by
  unfold RaftNode.onMessageAt
  split
  · exact refines.quietly _ (by simp [Quiet])
  rcases node.observeTerm_spec message with ⟨same, bound⟩ | ⟨term, harmless⟩
  · rw [same]
    exact refines.dispatch inv now target bound truthful own tidy
  obtain ⟨middle, follows, refines', id⟩ := refines.observeTerm inv message
  have reached := History.Steps.inv inv follows.steps
  obtain ⟨noOffice, noVote⟩ := harmless now
  have dispatched := refines'.dispatch reached now (target.trans id.symm) (fun _ => term.ge)
    (truthful.along inv follows.steps) (.inr noVote) (fun office => by simp [noOffice] at office)
  rw [id] at dispatched
  exact follows.simulates dispatched

end Messages

section Timers
variable (inv : History.Inv (rules group) history) (refines : Refines group history node)
include inv refines

omit inv refines in
theorem RaftNode.transferNudge_quiet (node : RaftNode) :
    ∀ effect ∈ node.transferNudge, Quiet group history effect := by
  unfold transferNudge
  split
  · split
    · simp [timeoutNowEffect, Quiet, Truthful]
    · simp
  · simp

theorem Refines.tickTimers (now : Nat) (tidy : node.role ≠ .leader → node.alone → ¬ group.fixed → node.tidy) :
    Simulates group history node.id (node.tickTimers now) := by
  unfold RaftNode.tickTimers
  split
  next beats =>
    have armed : node.SameClaims { node with heartbeatDeadline := now + node.config.heartbeat } :=
      { RaftNode.SameClaims.refl node with }
    have refines' := refines.claims armed
    refine ⟨history, Follows.quiet _ fun effect member => ?_, refines', rfl⟩
    simp only [List.mem_append, List.mem_singleton] at member
    rcases member with (member | member) | rfl
    · exact refines'.broadcastAppend inv (refines'.leads beats.1) effect member
    · exact RaftNode.transferNudge_quiet _ effect member
    · trivial
  · split
    next waits => exact refines.startPreVote inv now (tidy waits.1)
    · exact refines.quietly [] (by simp)

theorem Refines.tickQuorum (now : Nat) (tidy : node.role ≠ .leader → node.alone → ¬ group.fixed → node.tidy) :
    Simulates group history node.id (node.tickQuorum now) := by
  have restarted : node.SameClaims
      { node with
        heardQuorum := (∅ : BTreeSet NodeId).insert node.id
        quorumDeadline := now + node.config.electionMin } := { RaftNode.SameClaims.refl node with }
  have again := (refines.claims restarted).tickTimers inv now tidy
  unfold RaftNode.tickQuorum RaftNode.checkQuorum
  dsimp only
  by_cases unset : node.role = .leader ∧ node.quorumDeadline = 0
  · rw [if_pos unset]
    exact again
  rw [if_neg unset]
  by_cases due : node.role = .leader ∧ now ≥ node.quorumDeadline
  · rw [if_pos due]
    by_cases heard : node.hasMajority node.heardQuorum
    · rw [if_pos heard]
      exact again
    -- the leader steps down and keeps its term
    rw [if_neg heard]
    have follower : node.SameClaims
        { node with
          heardQuorum := (∅ : BTreeSet NodeId).insert node.id
          quorumDeadline := now + node.config.electionMin
          role := .follower
          leaderId := none } :=
      { RaftNode.SameClaims.refl node with votes := fun _ => rfl, role := .inr (by simp) }
    have refines' := (refines.claims follower).claims (RaftNode.resetElection_claims _ now)
    exact refines'.quietly _ (by simp [Quiet])
  · rw [if_neg due]
    exact refines.tickTimers inv now tidy

theorem Refines.tick (now : Nat) (tidy : node.takesOffice (.tick now) → ¬ group.fixed → node.tidy) :
    Simulates group history node.id (node.tick now) := by
  have same := node.resyncTransferFinishing_claims
  have synced := refines.claims same
  have role := node.resyncTransferFinishing_role
  have tidy' : node.resyncTransferFinishing.role ≠ .leader →
      node.resyncTransferFinishing.alone → ¬ group.fixed → node.resyncTransferFinishing.tidy := by
    intro waits alone free
    have kept := tidy (by
      simp only [RaftNode.takesOffice, Bool.and_eq_true, bne_iff_ne]
      refine ⟨role ▸ waits, ?_⟩
      unfold RaftNode.alone RaftNode.hasMajority RaftNode.majority at alone ⊢
      rw [same.joint, same.voters, same.id] at alone
      exact alone) free
    unfold RaftNode.tidy at kept ⊢
    rw [same.nextIndex, same.matchIndex, same.voters, same.learners]
    exact kept
  have quorum := synced.tickQuorum inv now tidy'
  rw [same.id] at quorum
  unfold RaftNode.tick
  dsimp only
  split
  next expired =>
    simp only [Bool.and_eq_true, decide_eq_true_eq] at expired
    have finish := synced.finishLeadershipTransfer inv (synced.leads expired.1) expired.1 .timeout now
    rw [same.id] at finish
    rcases node.resyncTransferFinishing.finishLeadershipTransfer_spec .timeout now with
      ⟨after, error, done, kept, keptRole⟩ | ⟨_, after, effects, _, done, _⟩
    · rw [done]
      have refused := (synced.claims kept).tickQuorum inv now fun waits => by
        rw [keptRole] at waits
        exact absurd expired.1 waits
      rw [kept.id, same.id] at refused
      exact refused
    · rw [done] at finish ⊢
      exact finish
  next => exact quorum

theorem Refines.onTimer (now : Nat) (timer : TimerKind)
    (tidy : node.takesOffice (.onTimer now timer) → ¬ group.fixed → node.tidy) :
    Simulates group history node.id (node.onTimer now timer) := by
  unfold RaftNode.onTimer
  split
  next role =>
    refine refines.quietly _ fun effect member => ?_
    rcases List.mem_append.mp member with member | member
    · exact refines.broadcastAppend inv (refines.leads role) effect member
    · exact RaftNode.transferNudge_quiet _ effect member
  next waits =>
    cases timer with
    | election =>
      refine refines.startPreVote inv now fun alone => tidy ?_
      simp only [RaftNode.takesOffice, Bool.and_eq_true, bne_iff_ne]
      exact ⟨waits, alone⟩
    | heartbeat => exact refines.quietly [] (by simp)

end Timers
end CrashCourse.Raft
