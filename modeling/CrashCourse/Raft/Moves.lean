import CrashCourse.Raft.System
import CrashCourse.Raft.Replay

/-!
What a call can do to the log, the commit and the applied index. A call that is no append
request is a sequence of moves: one that touches none of these, one entry pushed and
handed to persistence, and one raise of the commit index. No move lowers the term; steady
moves keep it and take no office.
-/

namespace CrashCourse.Raft
open CrashCourse.Core

def RaftEffect.inert : RaftEffect → Bool
  | .persistEntries _ | .truncateSuffix _ | .apply _ => false
  | _ => true

namespace RaftNode

structure Serves (before after : RaftNode) : Prop where
  term : after.hardState.term = before.hardState.term
  role : after.role = before.role ∨ after.role = .follower

theorem Serves.refl (node : RaftNode) : Serves node node := ⟨rfl, .inl rfl⟩

theorem Serves.trans {first second third : RaftNode} (one : Serves first second) (two : Serves second third) :
    Serves first third := by
  refine ⟨two.term.trans one.term, ?_⟩
  rcases two.role with same | gone
  · rw [same]
    exact one.role
  · exact .inr gone

structure SameTrack (before after : RaftNode) (steady : Prop := False) : Prop where
  log : after.log = before.log
  commitIndex : after.commitIndex = before.commitIndex
  appliedIndex : after.appliedIndex = before.appliedIndex
  snapshotIndex : after.snapshotIndex = before.snapshotIndex
  activeFeatures : after.activeFeatures = before.activeFeatures
  baseActiveFeatures : after.baseActiveFeatures = before.baseActiveFeatures
  term : before.hardState.term ≤ after.hardState.term
  sameTerm : steady → after.hardState.term = before.hardState.term
  sameRole : steady → after.role = before.role ∨ after.role = .follower

namespace SameTrack
variable {first second third : RaftNode} {steady : Prop}

theorem refl (node : RaftNode) : SameTrack node node steady :=
  ⟨rfl, rfl, rfl, rfl, rfl, rfl, le_rfl, fun _ => rfl, fun _ => .inl rfl⟩

theorem serves (same : SameTrack first second steady) (held : steady) : Serves first second :=
  ⟨same.sameTerm held, same.sameRole held⟩

theorem trans (one : SameTrack first second steady) (two : SameTrack second third steady) :
    SameTrack first third steady where
  log := two.log.trans one.log
  commitIndex := two.commitIndex.trans one.commitIndex
  appliedIndex := two.appliedIndex.trans one.appliedIndex
  snapshotIndex := two.snapshotIndex.trans one.snapshotIndex
  activeFeatures := two.activeFeatures.trans one.activeFeatures
  baseActiveFeatures := two.baseActiveFeatures.trans one.baseActiveFeatures
  term := one.term.trans two.term
  sameTerm held := ((one.serves held).trans (two.serves held)).term
  sameRole held := ((one.serves held).trans (two.serves held)).role

theorem of_body (body : SameBody first second)
    (features : second.activeFeatures = first.activeFeatures) : SameTrack first second steady :=
  ⟨body.log, body.commitIndex, body.appliedIndex, body.snapshotIndex, features, body.baseActiveFeatures,
    by rw [body.hardState], fun _ => congrArg HardState.term body.hardState, fun _ => body.role⟩

theorem lastIndex (same : SameTrack first second steady) : second.lastIndex = first.lastIndex := by
  unfold RaftNode.lastIndex
  rw [same.log, same.snapshotIndex]

end SameTrack

inductive Moves (steady : Prop) : RaftNode → List RaftEffect → RaftNode → Prop
  | idle {node next : RaftNode} {effects : List RaftEffect} (same : node.SameTrack next steady)
      (inert : ∀ effect ∈ effects, effect.inert) : Moves steady node effects next
  | push {node next : RaftNode} {entry : Entry} (index : entry.index = node.lastIndex + 1)
      (same : SameTrack { node with log := node.log ++ [entry] } next steady) :
      Moves steady node [.persistEntries [entry]] next
  | commit {node : RaftNode} {index : Nat} (raises : node.commitIndex < index)
      (within : index ≤ node.lastIndex) :
      Moves steady node (applyCommitted { node with commitIndex := index }).2
        (applyCommitted { node with commitIndex := index }).1
  | trans {node middle next : RaftNode} {first second : List RaftEffect}
      (one : Moves steady node first middle) (two : Moves steady middle second next) :
      Moves steady node (first ++ second) next

namespace Moves
variable {node next : RaftNode} {effects : List RaftEffect} {steady : Prop}

theorem refl (node : RaftNode) : Moves steady node [] node := .idle (.refl node) (by simp)

theorem of_same (same : node.SameTrack next steady) : Moves steady node [] next := .idle same (by simp)

theorem more {rest : List RaftEffect} (moves : Moves steady node effects next)
    (inert : ∀ effect ∈ rest, effect.inert) : Moves steady node (effects ++ rest) next :=
  .trans moves (.idle (.refl next) inert)

theorem after {ready : RaftNode} (same : node.SameTrack ready steady) (moves : Moves steady ready effects next) :
    Moves steady node effects next := .trans (.of_same same) moves

section
variable (moves : Moves steady node effects next)
include moves

theorem before {done : RaftNode} (same : next.SameTrack done steady) :
    Moves steady node effects done := by
  have whole := Moves.trans moves (.of_same same)
  rwa [List.append_nil] at whole

theorem loosen : Moves False node effects next := by
  induction moves with
  | idle same inert => exact .idle { same with sameTerm := False.elim, sameRole := False.elim } inert
  | push index same => exact .push index { same with sameTerm := False.elim, sameRole := False.elim }
  | commit raises within => exact .commit raises within
  | trans one two ih ih' => exact .trans ih ih'

theorem term_le : node.hardState.term ≤ next.hardState.term := by
  induction moves with
  | idle same inert => exact same.term
  | push index same => exact same.term
  | commit raises within => exact le_rfl
  | trans one two ih ih' => exact ih.trans ih'

theorem serves (held : steady) : Serves node next := by
  induction moves with
  | idle same inert => exact same.serves held
  | push index same => exact ⟨same.sameTerm held, same.sameRole held⟩
  | commit raises within => exact ⟨rfl, .inl rfl⟩
  | trans one two ih ih' => exact ih.trans ih'

end

end Moves

section Inert
variable (node : RaftNode)

theorem sendAppend_inert (peer : NodeId) : ∀ effect ∈ node.sendAppend peer, effect.inert := by
  intro effect member
  obtain rfl := List.mem_singleton.mp member
  rfl

theorem sendAppends_inert (peers : List NodeId) : ∀ effect ∈ peers.flatMap node.sendAppend, effect.inert := by
  intro effect member
  obtain ⟨peer, -, here⟩ := List.mem_flatMap.mp member
  exact node.sendAppend_inert peer effect here

theorem broadcastAppend_inert : ∀ effect ∈ node.broadcastAppend, effect.inert :=
  node.sendAppends_inert _

theorem transferNudge_inert : ∀ effect ∈ node.transferNudge, effect.inert := by
  intro effect member
  unfold transferNudge at member
  split at member
  · split at member
    · obtain rfl := List.mem_singleton.mp member
      rfl
    · cases member
  · cases member

theorem transferReady_inert (peer : NodeId) (response : AppendResponse) :
    ∀ effect ∈ node.transferReady peer response, effect.inert := by
  intro effect member
  unfold transferReady at member
  split at member
  · split at member
    · obtain rfl := List.mem_singleton.mp member
      rfl
    · cases member
  · cases member

theorem inert_append {first second : List RaftEffect} (one : ∀ effect ∈ first, effect.inert)
    (two : ∀ effect ∈ second, effect.inert) : ∀ effect ∈ first ++ second, effect.inert := by
  intro effect member
  rcases List.mem_append.mp member with member | member
  · exact one effect member
  · exact two effect member

end Inert

section Config
variable {node next : RaftNode} {effects : List RaftEffect} {steady : Prop}

theorem committable_le (node : RaftNode) (raised : node.commitIndex < node.committable) :
    node.committable ≤ node.lastIndex := by
  rcases node.committable_cases with same | member
  · omega
  · exact (node.mem_committables.mp member).2.1

theorem advanceCommit_moves (node : RaftNode) : Moves steady node node.advanceCommit.2 node.advanceCommit.1 := by
  unfold advanceCommit
  split
  next raised => exact .commit raised (node.committable_le raised)
  next => exact .refl node

theorem appendConfig_moves {envelope : ConfigEnvelope}
    (done : node.appendConfig envelope = (next, .ok effects)) : Moves steady node effects next := by
  unfold appendConfig at done
  dsimp only at done
  split at done
  · cases (Prod.mk.inj done).2
  next projected applied =>
    obtain ⟨rfl, same⟩ := Prod.mk.inj done
    obtain rfl := Except.ok.inj same
    obtain ⟨body, -, features⟩ := applyConfigOnAppend_body applied
    have track : node.SameTrack projected steady := .of_body body features
    have pushed : Moves steady node [.persistEntries [node.configEntry envelope]]
        { projected with
          log := projected.log ++ [node.configEntry envelope]
          retiringPeers := projected.retire (node.removedVoters envelope.operation)
            (node.configEntry envelope).index } := by
      refine .push rfl ?_
      exact { track with log := by rw [track.log] }
    exact pushed.more (inert_append (broadcastAppend_inert _) (sendAppends_inert _ _))

theorem appendConfig_refused {envelope : ConfigEnvelope} {error : RaftError}
    (done : node.appendConfig envelope = (next, .error error)) : next = node := by
  unfold appendConfig at done
  dsimp only at done
  split at done
  · exact (Prod.mk.inj done).1.symm
  · cases (Prod.mk.inj done).2

def Tries (node : RaftNode) (attempt : Attempt) (steady : Prop := True) : Prop :=
  match attempt.2 with
  | .ok effects => Moves steady node effects attempt.1
  | .error _ => node.SameTrack attempt.1 steady

theorem Tries.refused (node : RaftNode) (error : RaftError) : node.Tries (node, .error error) steady :=
  SameTrack.refl node

theorem Tries.serves {attempt : Attempt} (tries : node.Tries attempt) : Serves node attempt.1 := by
  obtain ⟨next, outcome⟩ := attempt
  cases outcome with
  | ok effects => exact Moves.serves tries trivial
  | error error => exact SameTrack.serves tries trivial

theorem Tries.after {ready : RaftNode} {attempt : Attempt} (same : node.SameTrack ready steady)
    (tries : ready.Tries attempt steady) : node.Tries attempt steady := by
  unfold Tries at tries ⊢
  split at tries
  · exact .after same tries
  · exact same.trans tries

theorem appendConfig_tries (node : RaftNode) (envelope : ConfigEnvelope) :
    node.Tries (node.appendConfig envelope) steady := by
  generalize done : node.appendConfig envelope = attempt
  obtain ⟨next, outcome⟩ := attempt
  cases outcome with
  | ok effects => exact appendConfig_moves done
  | error error =>
    rw [appendConfig_refused done]
    exact .refused node error

theorem finishLeadershipTransfer_tries (node : RaftNode) (result : TransferResult) (time : Nat) :
    node.Tries (node.finishLeadershipTransfer result time) steady := by
  unfold finishLeadershipTransfer
  split
  · exact .refused node _
  next transfer isOpen =>
    split
    · exact .refused node _
    dsimp only
    have marked : node.SameTrack
        { node with transfer := some { transfer with finishing := true } } steady :=
      { SameTrack.refl node with }
    split
    next next effects done => exact .after marked (appendConfig_moves done)
    next next error done =>
      rw [appendConfig_refused done]
      exact { SameTrack.refl node with }

theorem resyncTransferFinishing_track (node : RaftNode) : node.SameTrack node.resyncTransferFinishing steady :=
  .of_body (resyncTransferFinishing_body node).1 (resyncTransferFinishing_body node).2

end Config

section Elections
variable (node : RaftNode) {steady : Prop}

theorem settleTransfer_moves : Moves steady node node.settleTransfer.2 node.settleTransfer.1 := by
  unfold settleTransfer
  refine .after node.resyncTransferFinishing_track ?_
  dsimp only
  generalize node.resyncTransferFinishing = ready
  have idle : Moves steady ready ready.broadcastAppend ready := .idle (.refl ready) ready.broadcastAppend_inert
  split
  next transfer isOpen =>
    split
    · exact idle
    have tries : ready.Tries _ steady := ready.finishLeadershipTransfer_tries
      (if ready.id = transfer.target then .success else .superseded) transfer.deadline
    split
    next next finish done =>
      rw [done] at tries
      exact tries
    next next error done =>
      rw [done] at tries
      exact .idle tries next.broadcastAppend_inert
  · exact idle

theorem takeOffice_moves : Moves False node [.persistEntries [node.noopEntry]] node.takeOffice :=
  .push rfl { SameTrack.refl { node with log := node.log ++ [node.noopEntry] } with sameRole := False.elim }

theorem becomeLeader_moves : Moves False node node.becomeLeader.2 node.becomeLeader.1 := by
  have office := Moves.trans node.takeOffice_moves node.takeOffice.advanceCommit_moves
  unfold becomeLeader
  dsimp only
  generalize node.takeOffice.advanceCommit = opened at office
  obtain ⟨leader, applied⟩ := opened
  dsimp only at office ⊢
  split
  next envelope owed =>
    have tries : leader.Tries _ False := leader.appendConfig_tries envelope
    split
    next next finish done =>
      rw [done] at tries
      exact .trans office tries
    next next error done =>
      rw [done] at tries
      exact .trans (office.before tries) next.settleTransfer_moves
  · exact .trans office leader.settleTransfer_moves

theorem startElection_moves : Moves False node node.startElection.2 node.startElection.1 := by
  unfold startElection
  split
  · exact .of_same { SameTrack.refl node with sameRole := False.elim }
  dsimp only
  have stands : Moves False node [.persistHard ⟨node.hardState.term + 1, some node.id⟩]
      { node with
        role := .candidate
        hardState := ⟨node.hardState.term + 1, some node.id⟩
        votes := (∅ : BTreeSet NodeId).insert node.id } := by
    refine .idle { (.refl node : node.SameTrack node) with
      term := Nat.le_succ _, sameTerm := False.elim, sameRole := False.elim } ?_
    intro effect member
    obtain rfl := List.mem_singleton.mp member
    rfl
  split
  · exact .trans stands (becomeLeader_moves _)
  · refine stands.more ?_
    intro effect member
    obtain ⟨peer, -, rfl⟩ := List.mem_map.mp member
    rfl

theorem startPreVote_moves (now : Nat) : Moves False node (node.startPreVote now).2 (node.startPreVote now).1 := by
  unfold startPreVote
  split
  · exact .of_same { SameTrack.refl node with sameRole := False.elim }
  dsimp only
  split
  · refine .after ?_ (startElection_moves _)
    exact { SameTrack.refl node with sameRole := False.elim }
  · refine .idle { SameTrack.refl node with sameRole := False.elim } ?_
    intro effect member
    obtain ⟨peer, -, rfl⟩ := List.mem_map.mp member
    rfl

theorem voteRequest_moves (message : Message) (lastIndex lastTerm now : Nat) :
    Moves True node (node.voteRequest message lastIndex lastTerm now).2
      (node.voteRequest message lastIndex lastTerm now).1 := by
  unfold voteRequest
  dsimp only
  split
  all_goals
    refine .idle { SameTrack.refl node with } ?_
    intro effect member
    simp only [List.cons_append, List.nil_append, List.mem_cons, List.not_mem_nil, or_false] at member
    rcases member with rfl | rfl <;> rfl

end Elections

section Responses
variable (node : RaftNode)

theorem countReadAck_idle (peer : NodeId) (response : AppendResponse) :
    node.SameTrack (node.countReadAck peer response).1 True ∧
      ∀ effect ∈ (node.countReadAck peer response).2, effect.inert := by
  have same : node.SameTrack
      { node with
        readAcks :=
          if node.voters.contains peer && response.readRound == node.readRound
          then node.readAcks.insert peer else node.readAcks } True := { SameTrack.refl node with }
  unfold countReadAck
  generalize ({ node with
    readAcks :=
      if node.voters.contains peer && response.readRound == node.readRound
      then node.readAcks.insert peer else node.readAcks } : RaftNode) = counted at same
  dsimp only
  split
  · split
    · refine ⟨{ same with }, ?_⟩
      intro effect member
      obtain rfl := List.mem_singleton.mp member
      rfl
    · exact ⟨same, by simp⟩
  · exact ⟨same, by simp⟩

theorem appendResponseFromPeer_moves (peer : NodeId) (response : AppendResponse) :
    Moves True node (node.appendResponseFromPeer peer response).2
      (node.appendResponseFromPeer peer response).1 := by
  unfold appendResponseFromPeer
  split
  · dsimp only
    have recorded : node.SameTrack (node.recordMatch peer response) True := { SameTrack.refl node with }
    have advanced := Moves.after recorded (node.recordMatch peer response).advanceCommit_moves
    generalize (node.recordMatch peer response).advanceCommit = committed at advanced
    obtain ⟨leader, applied⟩ := committed
    have counting : leader.SameTrack _ True ∧ _ := leader.countReadAck_idle peer response
    have counted := Moves.trans advanced (.idle counting.1 counting.2)
    generalize leader.countReadAck peer response = read at counting counted
    obtain ⟨last, ready⟩ := read
    refine (counted.more (last.transferReady_inert peer response)).more ?_
    split
    · exact last.sendAppend_inert peer
    · simp
  · exact .idle { SameTrack.refl node with } (sendAppend_inert _ peer)

/-- The peer has its terminal entry before the leader committed it; the source then
drops the effects of counting the answer. -/
def dropsAnswer (node : RaftNode) (message : Message) (response : AppendResponse) : Bool :=
  node.role = .leader && message.term == node.hardState.term && response.success &&
    node.retiringPeers[message.sender]?.any fun retiring =>
      decide (response.matchIndex ≥ retiring.terminal) && decide (node.commitIndex < retiring.terminal)

theorem appendResponse_moves (message : Message) (response : AppendResponse) (now : Nat)
    (counted : node.dropsAnswer message response = false) :
    Moves True node (node.appendResponse message response now).2
      (node.appendResponse message response now).1 := by
  unfold appendResponse
  split
  · exact .refl node
  next heard =>
    split
    next success =>
      have contact : node.SameTrack
          { node with lastContact := node.lastContact.insert message.sender now } True :=
        { SameTrack.refl node with }
      dsimp only
      split
      next retiring present =>
        obtain ⟨known, reached⟩ := Option.filter_eq_some_iff.mp present
        split
        next early =>
          -- this is the branch whose effects are dropped
          simp only [Bool.or_eq_true, decide_eq_true_eq, not_or, not_not] at heard
          simp [dropsAnswer, heard.1.1, heard.1.2, success, known, early] at counted
          exact absurd counted (by simpa using reached)
        · split
          · exact .idle { SameTrack.refl node with } (sendAppend_inert _ _)
          · exact .of_same { SameTrack.refl node with }
      next => exact .after contact (appendResponseFromPeer_moves _ _ _)
    next => exact appendResponseFromPeer_moves _ _ _

end Responses

section Messages
variable (node : RaftNode)

theorem observeTerm_track (message : Message) : node.SameTrack (node.observeTerm message).1 := by
  unfold observeTerm
  split
  next newer =>
    simp only [Bool.and_eq_true, decide_eq_true_eq] at newer
    exact { (.refl node : node.SameTrack node) with
      term := newer.1.le, sameTerm := False.elim, sameRole := False.elim }
  · exact .refl node

theorem observeTerm_idle (message : Message) :
    Moves False node (node.observeTerm message).2 (node.observeTerm message).1 := by
  refine .idle (node.observeTerm_track message) ?_
  intro effect member
  unfold observeTerm at member
  split at member
  · obtain rfl := List.mem_singleton.mp member
    rfl
  · cases member

theorem snapshotChunk_inert (message : Message) (chunk : SnapshotChunk) :
    ∀ effect ∈ node.snapshotChunk message chunk, effect.inert := by
  intro effect member
  unfold snapshotChunk at member
  dsimp only at member
  split at member
  · obtain rfl := List.mem_singleton.mp member; rfl
  split at member
  · obtain rfl := List.mem_singleton.mp member; rfl
  · split at member
    · obtain rfl := List.mem_singleton.mp member; rfl
    · obtain rfl := List.mem_singleton.mp member; rfl

theorem moves_single {effect : RaftEffect} (inert : effect.inert) : Moves False node [effect] node := by
  refine .idle (.refl node) ?_
  intro other member
  obtain rfl := List.mem_singleton.mp member
  exact inert

/-- The message is no append request, and no answer whose effects are dropped. -/
def plainMessage (node : RaftNode) (message : Message) : Bool :=
  match message.kind with
  | .appendReq _ => false
  | .appendResp response => !node.dropsAnswer message response
  | _ => true

theorem dispatch_moves (message : Message) (now : Nat) (plain : node.plainMessage message) :
    Moves False node (node.dispatch message now).2 (node.dispatch message now).1 := by
  unfold plainMessage at plain
  unfold dispatch
  split
  next => exact node.moves_single rfl
  next =>
    split
    · dsimp only
      split
      · refine .after ?_ (startElection_moves _)
        exact { SameTrack.refl node with }
      · exact .of_same { SameTrack.refl node with }
    · exact .refl node
  next => exact (node.voteRequest_moves message _ _ now).loosen
  next =>
    split
    · dsimp only
      split
      · refine .after ?_ (becomeLeader_moves _)
        exact { SameTrack.refl node with }
      · exact .of_same { SameTrack.refl node with }
    · exact .refl node
  next request kind => simp [kind] at plain
  next response kind =>
    rw [kind] at plain
    exact (node.appendResponse_moves message response now (by simpa using plain)).loosen
  next => exact .idle (.refl node) (node.snapshotChunk_inert message _)
  next transferId nextOffset accepted reason kind =>
    dsimp only
    have inert : ∀ effect ∈ [RaftEffect.receiveSnapshotAck message, .trace "snapshot_ack" nextOffset],
        effect.inert := by
      intro effect member
      simp only [List.mem_cons, List.not_mem_nil, or_false] at member
      rcases member with rfl | rfl <;> rfl
    split
    · exact .idle { SameTrack.refl node with } inert
    · exact .idle (.refl node) inert
  next =>
    split
    · exact node.startElection_moves
    · exact node.moves_single rfl
  next =>
    split
    · exact node.moves_single rfl
    · exact node.moves_single rfl
  next =>
    split
    · exact node.moves_single rfl
    · exact node.moves_single rfl

theorem onMessageAt_moves (message : Message) (now : Nat)
    (plain : (node.observeTerm message).1.plainMessage message) :
    Moves False node (node.onMessageAt message now).2 (node.onMessageAt message now).1 := by
  unfold onMessageAt
  split
  · exact node.moves_single rfl
  · exact .trans (node.observeTerm_idle message) (dispatch_moves _ message now plain)

theorem tickTimers_moves (now : Nat) : Moves False node (node.tickTimers now).2 (node.tickTimers now).1 := by
  unfold tickTimers
  split
  · refine .idle { SameTrack.refl node with } ?_
    refine inert_append (inert_append (broadcastAppend_inert _) (transferNudge_inert _)) ?_
    intro effect member
    obtain rfl := List.mem_singleton.mp member
    rfl
  · split
    · exact node.startPreVote_moves now
    · exact .refl node

theorem tickQuorum_moves (now : Nat) : Moves False node (node.tickQuorum now).2 (node.tickQuorum now).1 := by
  unfold tickQuorum checkQuorum
  dsimp only
  split
  next step down =>
    -- the only early return is the one that steps down
    split at down
    · cases down
    split at down
    · split at down
      · cases down
      · obtain rfl := Except.error.inj down
        refine .idle { SameTrack.refl node with sameRole := False.elim } ?_
        intro effect member
        obtain rfl := List.mem_singleton.mp member
        rfl
    · cases down
  next ready up =>
    have same : node.SameTrack ready := by
      split at up
      · obtain rfl := Except.ok.inj up
        exact { SameTrack.refl node with }
      split at up
      · split at up
        · obtain rfl := Except.ok.inj up
          exact { SameTrack.refl node with }
        · cases up
      · obtain rfl := Except.ok.inj up
        exact .refl node
    exact .after same (ready.tickTimers_moves now)

theorem tick_moves (now : Nat) : Moves False node (node.tick now).2 (node.tick now).1 := by
  unfold tick
  refine .after node.resyncTransferFinishing_track ?_
  dsimp only
  generalize node.resyncTransferFinishing = ready
  split
  · have tries : ready.Tries _ False := ready.finishLeadershipTransfer_tries .timeout now
    split
    next next effects done =>
      rw [done] at tries
      exact tries
    next next error done =>
      rw [done] at tries
      exact .after tries (next.tickQuorum_moves now)
  · exact ready.tickQuorum_moves now

theorem onTimer_moves (now : Nat) (timer : TimerKind) :
    Moves False node (node.onTimer now timer).2 (node.onTimer now timer).1 := by
  unfold onTimer
  split
  · exact .idle (.refl node) (inert_append node.broadcastAppend_inert node.transferNudge_inert)
  · cases timer with
    | election => exact node.startPreVote_moves now
    | heartbeat => exact .refl node

end Messages
section Proposals
variable (node : RaftNode) {steady : Prop}

theorem Tries.settle {attempt : Attempt} (tries : node.Tries attempt steady) :
    Moves steady node (settle attempt).2 (settle attempt).1 := by
  obtain ⟨next, outcome⟩ := attempt
  cases outcome with
  | ok effects => exact tries
  | error error => exact .of_same tries

theorem push_moves {ready : RaftNode} {entry : Entry} (index : entry.index = node.lastIndex + 1)
    (same : SameTrack { node with log := node.log ++ [entry] } ready steady) :
    Moves steady node (.persistEntries [entry] :: ready.advanceCommit.2
      ++ ready.advanceCommit.1.broadcastAppend) ready.advanceCommit.1 :=
  (Moves.trans (.push index same) ready.advanceCommit_moves).more (broadcastAppend_inert _)

theorem proposeWithKind_tries (payload : Bytes) (kind : EntryKind) :
    node.Tries (node.proposeWithKind payload kind) steady := by
  unfold proposeWithKind
  split
  · exact .refused node _
  split
  · exact .refused node _
  · dsimp only
    split
    · exact .refused node _
    · exact node.push_moves rfl (.refl _)

theorem requestRead_tries : node.Tries node.requestRead steady := by
  unfold requestRead
  split
  · exact .refused node _
  split
  · exact .refused node _
  split
  · exact .refused node _
  dsimp only
  have inert : ∀ (reader : RaftNode) (index : Nat),
      ∀ effect ∈ RaftEffect.readBarrier index :: reader.broadcastAppend, effect.inert := by
    intro reader index effect member
    rcases List.mem_cons.mp member with rfl | member
    · rfl
    · exact reader.broadcastAppend_inert effect member
  split
  · refine Moves.idle { SameTrack.refl node with } (inert_append (inert _ _) ?_)
    intro effect member
    obtain rfl := List.mem_singleton.mp member
    rfl
  · exact Moves.idle { SameTrack.refl node with } (inert _ _)

theorem replicatePeer_tries (peer : NodeId) : node.Tries (node.replicatePeer peer) steady := by
  unfold replicatePeer
  split
  · exact .refused node _
  · exact Moves.idle (.refl node) (node.sendAppend_inert peer)

theorem enterJoint_tries (newVoters : BTreeSet NodeId) : node.Tries (node.enterJoint newVoters) steady := by
  unfold enterJoint
  split
  · exact .refused node _
  split
  · exact .refused node _
  dsimp only
  split
  · exact .refused node _
  next projected applied =>
    obtain ⟨body, -, features⟩ := applyConfigOnAppend_body applied
    have track : node.SameTrack projected steady := .of_body body features
    exact node.push_moves rfl { track with log := by rw [track.log] }

theorem addLearner_tries (id : NodeId) : node.Tries (node.addLearner id) steady := by
  unfold addLearner
  split
  · exact .refused node _
  · split
    · exact .refused node _
    · exact node.appendConfig_tries _

theorem promoteLearner_tries (id : NodeId) : node.Tries (node.promoteLearner id) steady := by
  unfold promoteLearner
  split
  · exact .refused node _
  split
  · exact .refused node _
  · split
    · exact .refused node _
    · exact node.enterJoint_tries _

theorem leaveJoint_tries : node.Tries node.leaveJoint steady := by
  unfold leaveJoint
  split
  · exact .refused node _
  split
  · exact .refused node _
  split
  · exact .refused node _
  · split
    · exact .refused node _
    · exact node.appendConfig_tries _

theorem beginLeadershipTransfer_tries (target : NodeId) (leaderTime : Nat) :
    node.Tries (node.beginLeadershipTransfer target leaderTime) steady := by
  unfold beginLeadershipTransfer
  split
  · exact .refused node _
  split
  · exact .refused node _
  · split
    · exact .refused node _
    · exact node.appendConfig_tries _

theorem activateFeature_tries (feature : UInt64) (leaderTime : Nat) :
    node.Tries (node.activateFeature feature leaderTime) steady := by
  unfold activateFeature
  split
  · exact .refused node _
  · split
    · exact .refused node _
    · exact node.appendConfig_tries _

theorem proposeAdminConfig_tries (envelope : ConfigEnvelope) :
    node.Tries (node.proposeAdminConfig envelope) steady := by
  unfold proposeAdminConfig
  split
  · exact .refused node _
  split
  · exact .refused node _
  split
  · exact .refused node _
  · split
    · exact .refused node _
    · exact node.appendConfig_tries _

def activates (node : RaftNode) : Call → Bool
  | .applyCommittedConfig entry =>
    entry.configHas (isActivationOf atomicBatchFeature)
      && (node.activeFeatures &&& atomicBatchFeature) == 0
  | _ => false

theorem applyCommittedConfig_tries (entry : Entry) (idle : node.activates (.applyCommittedConfig entry) = false) :
    node.Tries (node.applyCommittedConfig entry) steady := by
  unfold applyCommittedConfig
  split
  · exact .refused node _
  next config =>
    split
    · exact .refused node _
    next envelope decoded =>
      split
      next id address shape =>
        split
        · exact Moves.idle (.refl node) (node.sendAppend_inert id)
        · exact Moves.refl node
      next target shape =>
        split
        · exact .refused node _
        dsimp only
        split
        · refine .after ?_ (finishLeadershipTransfer_tries _ _ _)
          exact { SameTrack.refl node with }
        split
        · refine Moves.idle { SameTrack.refl node with } ?_
          intro effect member
          obtain rfl := List.mem_singleton.mp member
          rfl
        · exact Moves.of_same { SameTrack.refl node with }
      next intentIndex result shape =>
        split
        · exact Moves.of_same { SameTrack.refl node with }
        · exact .refused node _
      next feature shape =>
        split
        · exact .refused node _
        next fresh =>
          -- an activation that is not refused is one the call applies
          simp only [Bool.or_eq_true, bne_iff_ne, ne_eq, not_or, not_not] at fresh
          obtain ⟨rfl, unset⟩ := fresh
          have set := by simpa [activates, Entry.configHas, decoded, shape, isActivationOf] using idle
          exact absurd unset (set (by simpa using config))
      next => exact Moves.refl node

end Proposals

def isRequest : Call → Bool
  | .tick _ | .onTimer _ _ | .onMessageAt _ _ => false
  | _ => true

def plainCall (node : RaftNode) : Call → Bool
  | .onMessageAt message _ => (node.observeTerm message).1.plainMessage message
  | _ => true

theorem request_moves (node : RaftNode) {steady : Prop} {call : Call} (request : isRequest call)
    (idle : node.activates call = false) : Moves steady node (node.call call).2 (node.call call).1 := by
  cases call with
  | tick now | onTimer now timer | onMessageAt message now => cases request
  | propose payload => exact (node.proposeWithKind_tries payload .app).settle
  | proposeV3Batch payload =>
    refine Tries.settle node ?_
    unfold proposeV3Batch
    split
    · exact .refused node _
    · exact node.proposeWithKind_tries payload .appV3
  | requestRead => exact node.requestRead_tries.settle
  | addLearner id => exact (node.addLearner_tries id).settle
  | promoteLearner id => exact (node.promoteLearner_tries id).settle
  | enterJoint newVoters => exact (node.enterJoint_tries newVoters).settle
  | leaveJoint => exact node.leaveJoint_tries.settle
  | beginLeadershipTransfer target leaderTime =>
    exact (node.beginLeadershipTransfer_tries target leaderTime).settle
  | activateFeature feature leaderTime =>
    exact (node.activateFeature_tries feature leaderTime).settle
  | proposeAdminConfig envelope => exact (node.proposeAdminConfig_tries envelope).settle
  | replicatePeer peer => exact (node.replicatePeer_tries peer).settle
  | applyCommittedConfig entry => exact (node.applyCommittedConfig_tries entry idle).settle

theorem call_moves (node : RaftNode) (call : Call) (plain : node.plainCall call)
    (idle : node.activates call = false) : Moves False node (node.call call).2 (node.call call).1 := by
  cases call with
  | tick now => exact node.tick_moves now
  | onTimer now timer => exact node.onTimer_moves now timer
  | onMessageAt message now => exact node.onMessageAt_moves message now plain
  | _ => exact node.request_moves rfl idle

theorem call_activates (node : RaftNode) (call : Call) (active : node.activates call) : node.call call =
      ({ node with activeFeatures := node.activeFeatures ||| atomicBatchFeature }, []) := by
  cases call with
  | applyCommittedConfig entry =>
    simp only [activates, Entry.configHas, Bool.and_eq_true, beq_iff_eq] at active
    obtain ⟨⟨config, shaped⟩, unset⟩ := active
    cases decoded : entry.envelope? with
    | none => simp [decoded] at shaped
    | some envelope =>
      have shape : envelope.operation = .activateFeature atomicBatchFeature := by
        rw [decoded] at shaped
        cases operation : envelope.operation <;>
          simp_all [isActivationOf]
      unfold call applyCommittedConfig settle
      simp [config, decoded, shape, unset]
  | _ => cases active

theorem request_serves (node : RaftNode) (call : Call) (request : isRequest call) : Serves node (node.call call).1 := by
  cases active : node.activates call with
  | true =>
    rw [call_activates node call active]
    exact ⟨rfl, .inl rfl⟩
  | false => exact (node.request_moves request active).serves trivial

end RaftNode
end CrashCourse.Raft
