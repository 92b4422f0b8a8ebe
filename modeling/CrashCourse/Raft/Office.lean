import CrashCourse.Raft.Stream

/-!
A leadership from inside: the term does not move, the log only grows, and what is handed
out are entries of that log.
-/

namespace CrashCourse.Raft
open CrashCourse.Core
namespace RaftNode
variable {node middle next : RaftNode} {effects first second : List RaftEffect} {message : Message}

structure Extends (node : RaftNode) (effects : List RaftEffect) (next : RaftNode) : Prop where
  log : ∃ more, next.log = node.log ++ more
  handed : ∀ entry ∈ appliedBy effects, entry ∈ next.log
  whole : ∀ index, .truncateSuffix index ∉ effects

namespace Extends

theorem mem (grows : Extends node effects next) {entry : Entry} (member : entry ∈ node.log) : entry ∈ next.log := by
  obtain ⟨more, log⟩ := grows.log
  rw [log]
  exact List.mem_append_left _ member

theorem of_log (log : next.log = node.log) (inert : ∀ effect ∈ effects, effect.inert) :
    Extends node effects next where
  log := ⟨[], by rw [log, List.append_nil]⟩
  handed := by simp [appliedBy_inert inert]
  whole index member := by cases inert _ member

theorem trans (one : Extends node first middle) (two : Extends middle second next) :
    Extends node (first ++ second) next where
  log := by
    obtain ⟨more, log⟩ := one.log
    obtain ⟨more', log'⟩ := two.log
    exact ⟨more ++ more', by rw [log', log, List.append_assoc]⟩
  handed entry member := by
    rw [appliedBy_append] at member
    rcases List.mem_append.mp member with early | late
    · exact two.mem (one.handed entry early)
    · exact two.handed entry late
  whole index member := by
    rcases List.mem_append.mp member with early | late
    · exact one.whole index early
    · exact two.whole index late

end Extends

theorem mem_collectCommitted {log : List Entry} {fuel applied : Nat} {entry : Entry}
    (member : entry ∈ collectCommitted log fuel applied) : entry ∈ log := by
  induction fuel generalizing applied with
  | zero => cases member
  | succ fuel ih =>
    unfold collectCommitted at member
    split at member
    next found located =>
      rcases List.mem_cons.mp member with rfl | later
      · exact List.mem_of_find?_eq_some located
      · exact ih later
    next => cases member

theorem applyCommitted_extends (node : RaftNode) : Extends node node.applyCommitted.2 node.applyCommitted.1 := by
  have handed : ∀ entry ∈ appliedBy node.applyCommitted.2, entry ∈ node.log := by
    intro entry member
    unfold applyCommitted at member
    dsimp only at member
    split at member
    · cases member
    · simp only [appliedBy, List.append_nil] at member
      exact mem_collectCommitted member
  refine ⟨⟨[], (List.append_nil _).symm⟩, handed, ?_⟩
  intro index member
  unfold applyCommitted at member
  dsimp only at member
  split at member
  · cases member
  · cases List.mem_singleton.mp member

theorem Moves.extends_ {steady : Prop} (moves : Moves steady node effects next) : Extends node effects next := by
  induction moves with
  | idle same inert => exact .of_log same.log inert
  | push index same =>
    refine ⟨⟨_, same.log⟩, by simp [appliedBy], ?_⟩
    intro index member
    cases List.mem_singleton.mp member
  | commit raises within => exact { (applyCommitted_extends _) with }
  | trans one two ih ih' => exact ih.trans ih'

theorem finishLeadershipTransfer_refused {result : TransferResult} {time : Nat} {error : RaftError}
    (done : node.finishLeadershipTransfer result time = (next, .error error)) : next.role = node.role := by
  unfold finishLeadershipTransfer at done
  split at done
  · exact congrArg RaftNode.role (Prod.mk.inj done).1.symm
  split at done
  · exact congrArg RaftNode.role (Prod.mk.inj done).1.symm
  dsimp only at done
  split at done
  · cases (Prod.mk.inj done).2
  next refused =>
    obtain ⟨rfl, -⟩ := Prod.mk.inj done
    rw [appendConfig_refused refused]

theorem appendResponse_serves (node : RaftNode) (message : Message) (response : AppendResponse)
    (now : Nat) : Serves node (node.appendResponse message response now).1 := by
  cases dropped : node.dropsAnswer message response with
  | false => exact (node.appendResponse_moves message response now dropped).serves trivial
  | true =>
    rw [appendResponse_dropped now dropped]
    have advanced : Moves True _ _ _ := advanceCommit_moves (recordMatch
      { node with lastContact := node.lastContact.insert message.sender now } message.sender response)
    have both := (advanced.serves trivial).trans ((countReadAck_idle _ message.sender response).1.serves trivial)
    exact ⟨both.term, both.role⟩

theorem voteRequest_serves (node : RaftNode) (message : Message) (lastIndex lastTerm now : Nat) :
    Serves node (node.voteRequest message lastIndex lastTerm now).1 :=
  (node.voteRequest_moves message lastIndex lastTerm now).serves trivial

theorem pushEntry_role {entry : Entry} (pushes : node.pushEntry message entry effects = .ok next) :
    next.role = node.role ∨ next.role = .follower := by
  unfold pushEntry at pushes
  split at pushes
  · cases pushes
  split at pushes
  · split at pushes
    · cases pushes
    next projected applied =>
      obtain rfl := Except.ok.inj pushes
      exact (applyConfigOnAppend_body applied).1.role
  · obtain rfl := Except.ok.inj pushes
    exact .inl rfl

theorem appendLoop_role {rest appended : List Entry} (idle : node.role ≠ .leader) :
    (appendLoop message rest node effects appended).1.role ≠ .leader := by
  have stays {before after : RaftNode} (idle : before.role ≠ .leader)
      (role : after.role = before.role ∨ after.role = .follower) : after.role ≠ .leader := by
    rcases role with same | gone
    · rwa [same]
    · rw [gone]; nofun
  induction rest generalizing node effects appended with
  | nil => exact idle
  | cons entry rest ih =>
    have truncated : (node.truncateSuffix entry.index).role ≠ .leader :=
      stays idle (rebuild_body { node with
        log := node.log.filter fun existing => decide (existing.index < entry.index) }).role
    unfold appendLoop
    split
    · split_ifs
      · exact ih idle
      · exact idle
      · dsimp only
        split
        · exact truncated
        next pushed done => exact ih (stays truncated (pushEntry_role done))
    · split
      · exact idle
      next pushed done => exact ih (stays idle (pushEntry_role done))

theorem memberRole_ne_leader (node : RaftNode) : node.memberRole ≠ .leader := by
  unfold memberRole
  split <;> nofun

theorem appendRequest_role (node : RaftNode) (request : AppendRequest) (now : Nat)
    (current : node.hardState.term ≤ message.term) : (node.appendRequest message request now).1.role ≠ .leader := by
  unfold appendRequest
  rw [if_neg (not_lt.mpr current)]
  dsimp only
  split
  · exact memberRole_ne_leader node
  have looped := @appendLoop_role
    (resetElection { node with role := node.memberRole, leaderId := some message.sender } now) [] message
    request.entries [] (memberRole_ne_leader node)
  generalize appendLoop message request.entries _ [] [] = outcome at looped
  obtain ⟨next, _ | ⟨out, appended⟩⟩ := outcome
  · exact looped
  · dsimp only [acknowledgeAppend]
    split
    · exact looped
    · exact looped

/-- The node takes a `TimeoutNow` for one from its leader; a leader has only its own name there. -/
def urgesItself (node : RaftNode) : Call → Bool
  | .onMessageAt message _ =>
    match message.kind with
    | .timeoutNow intentIndex => node.timeoutNowValid message intentIndex
    | _ => false
  | _ => false

theorem dispatch_serves (node : RaftNode) (now : Nat) (leads : node.role = .leader)
    (calm : node.urgesItself (.onMessageAt message now) = false) :
    (node.dispatch message now).1.role = .leader → Serves node (node.dispatch message now).1 := by
  unfold dispatch
  unfold urgesItself at calm
  cases shape : message.kind with
  | preVoteReq lastIndex lastTerm | snapshotChunk chunk => exact fun _ => .refl node
  | preVoteResp granted | voteResp granted =>
    dsimp only
    rw [if_neg (by simp [leads])]
    exact fun _ => .refl node
  | voteReq lastIndex lastTerm => exact fun _ => node.voteRequest_serves message lastIndex lastTerm now
  | appendReq request =>
    dsimp only
    intro stays
    by_cases stale : message.term < node.hardState.term
    · unfold appendRequest
      rw [if_pos stale]
      exact .refl node
    · exact absurd stays (node.appendRequest_role request now (not_lt.mp stale))
  | appendResp response => exact fun _ => node.appendResponse_serves message response now
  | snapshotAck transferId nextOffset accepted reason =>
    dsimp only
    intro _
    split
    · exact ⟨rfl, .inl rfl⟩
    · exact .refl node
  | timeoutNow intentIndex =>
    dsimp only at calm ⊢
    rw [shape] at calm
    rw [if_neg (by simp [show node.timeoutNowValid message intentIndex = false from calm])]
    exact fun _ => .refl node
  | followerReadRequest requestId commandHash | followerReadGrant requestId commandHash readIndex readTime =>
    dsimp only
    intro _
    split <;> exact .refl node

theorem dispatch_follower (node : RaftNode) (now : Nat) (idle : node.role = .follower ∨ node.role = .learner)
    (unled : node.leaderId = none) (newer : observesTerm message.kind = true)
    (current : node.hardState.term ≤ message.term) : (node.dispatch message now).1.role ≠ .leader := by
  have away : node.role ≠ .leader := by
    rcases idle with role | role <;> rw [role] <;> nofun
  have candidate : node.role ≠ .candidate := by
    rcases idle with role | role <;> rw [role] <;> nofun
  unfold dispatch
  cases shape : message.kind with
  | preVoteReq lastIndex lastTerm | preVoteResp granted => simp [shape, observesTerm] at newer
  | voteReq lastIndex lastTerm =>
    rcases (node.voteRequest_serves message lastIndex lastTerm now).role with same | gone
    · rwa [same]
    · rw [gone]; nofun
  | voteResp granted =>
    dsimp only
    rw [if_neg (by simp [candidate])]
    exact away
  | appendReq request => exact node.appendRequest_role request now current
  | appendResp response =>
    dsimp only [appendResponse]
    rw [if_pos (by simp [away])]
    exact away
  | snapshotChunk chunk => exact away
  | snapshotAck transferId nextOffset accepted reason
  | followerReadRequest requestId commandHash
  | followerReadGrant requestId commandHash readIndex readTime =>
    dsimp only
    split <;> exact away
  | timeoutNow intentIndex =>
    dsimp only
    rw [if_neg (by simp [timeoutNowValid, unled])]
    exact away

theorem onMessageAt_serves (node : RaftNode) (now : Nat) (leads : node.role = .leader)
    (calm : node.urgesItself (.onMessageAt message now) = false) :
    (node.onMessageAt message now).1.role = .leader → Serves node (node.onMessageAt message now).1 := by
  unfold onMessageAt
  split
  · exact fun _ => .refl node
  dsimp only
  by_cases newer : node.hardState.term < message.term ∧ observesTerm message.kind = true
  · intro stays
    refine absurd stays (dispatch_follower _ now ?_ ?_ newer.2 ?_)
    all_goals
      unfold observeTerm
      rw [if_pos (by simp [newer.1, newer.2])]
    dsimp only [memberRole]
    split <;> simp
  · have same : node.observeTerm message = (node, []) := by
      unfold observeTerm
      rw [if_neg (by simpa using newer)]
    rw [same]
    exact node.dispatch_serves now leads calm

theorem tickQuorum_serves (node : RaftNode) (now : Nat) (leads : node.role = .leader) :
    (node.tickQuorum now).1.role = .leader → Serves node (node.tickQuorum now).1 := by
  have timed (ready : RaftNode) (leads : ready.role = .leader) : Serves ready (ready.tickTimers now).1 := by
    unfold tickTimers
    split_ifs
    · exact ⟨rfl, .inl rfl⟩
    · next bad => exact absurd leads bad.1
    · exact .refl ready
  unfold tickQuorum checkQuorum
  dsimp only
  intro stays
  split_ifs at stays ⊢
  · have later := timed { node with
      heardQuorum := (∅ : BTreeSet NodeId).insert node.id
      quorumDeadline := now + node.config.electionMin } leads
    exact ⟨later.term, later.role⟩
  · have later := timed { node with
      heardQuorum := (∅ : BTreeSet NodeId).insert node.id
      quorumDeadline := now + node.config.electionMin } leads
    exact ⟨later.term, later.role⟩
  · cases stays
  · exact timed node leads

theorem tick_serves (node : RaftNode) (now : Nat) (leads : node.role = .leader) :
    (node.tick now).1.role = .leader → Serves node (node.tick now).1 := by
  have resynced := node.resyncTransferFinishing_track.serves trivial
  have leads' : node.resyncTransferFinishing.role = .leader := by
    unfold resyncTransferFinishing
    split
    · exact leads
    · dsimp only
      split <;> exact leads
  unfold tick
  dsimp only
  generalize node.resyncTransferFinishing = ready at resynced leads'
  split
  · have finished := (ready.finishLeadershipTransfer_tries .timeout now).serves
    split
    next next effects done =>
      rw [done] at finished
      exact fun _ => resynced.trans finished
    next next error done =>
      rw [done] at finished
      have office := (finishLeadershipTransfer_refused done).trans leads'
      exact fun stays => resynced.trans (finished.trans (next.tickQuorum_serves now office stays))
  · exact fun stays => resynced.trans (ready.tickQuorum_serves now leads' stays)

theorem call_serves (node : RaftNode) (call : Call) (leads : node.role = .leader)
    (calm : node.urgesItself call = false) : (node.call call).1.role = .leader → Serves node (node.call call).1 := by
  cases call with
  | tick now => exact node.tick_serves now leads
  | onTimer now timer =>
    have same : node.onTimer now timer = (node, node.broadcastAppend ++ node.transferNudge) := if_pos leads
    intro _
    change Serves node (node.onTimer now timer).1
    rw [same]
    exact .refl node
  | onMessageAt message now => exact node.onMessageAt_serves now leads calm
  | _ => exact fun _ => node.request_serves _ rfl

theorem dispatch_extends (node : RaftNode) (now : Nat)
    (shape : (∃ request, message.kind = .appendReq request) ∨ ∃ response, message.kind = .appendResp response) :
    (node.dispatch message now).1.role = .leader →
      Extends node (node.dispatch message now).2 (node.dispatch message now).1 := by
  unfold dispatch
  rcases shape with ⟨request, shape⟩ | ⟨response, shape⟩ <;> rw [shape] <;> dsimp only <;> intro stays
  · by_cases stale : message.term < node.hardState.term
    · unfold appendRequest
      rw [if_pos stale]
      refine .of_log rfl ?_
      intro effect member
      rw [List.mem_singleton.mp member]
      rfl
    · exact absurd stays (node.appendRequest_role request now (not_lt.mp stale))
  · cases dropped : node.dropsAnswer message response with
    | false => exact (node.appendResponse_moves message response now dropped).extends_
    | true =>
      rw [appendResponse_dropped now dropped]
      refine .of_log ?_ (by simp)
      dsimp only
      rw [(countReadAck_idle _ _ _).1.log, advanceCommit_log]
      rfl

theorem plainCall_extends (node : RaftNode) {call : Call} (plain : node.plainCall call) :
    Extends node (node.call call).2 (node.call call).1 := by
  cases active : node.activates call with
  | true =>
    rw [call_activates node call active]
    exact .of_log rfl (by simp)
  | false => exact (node.call_moves call plain active).extends_

theorem call_extends (node : RaftNode) (call : Call) :
    (node.call call).1.role = .leader → Extends node (node.call call).2 (node.call call).1 := by
  intro stays
  cases plain : node.plainCall call with
  | true => exact node.plainCall_extends plain
  | false =>
    obtain ⟨message, now, rfl, shape⟩ := plainCall_cases plain
    change (node.onMessageAt message now).1.role = .leader at stays
    change Extends node (node.onMessageAt message now).2 (node.onMessageAt message now).1
    unfold onMessageAt at stays ⊢
    split at stays
    next unknown =>
      rw [if_pos unknown]
      refine .of_log rfl ?_
      intro effect member
      rw [List.mem_singleton.mp member]
      rfl
    next known =>
      rw [if_neg known]
      exact (node.observeTerm_idle message).extends_.trans (dispatch_extends _ now shape stays)

structure Outside (node : RaftNode) : Prop where
  leaves : node.role ≠ .leader
  sits : node.role ≠ .candidate
  voteless : node.voters.contains node.id = false

section
variable (outside : Outside node)
include outside

theorem Outside.serves (serves : Serves node next) : next.role ≠ .leader := by
  rcases serves.role with same | gone
  · rw [same]
    exact outside.leaves
  · simp [gone]

theorem Outside.startElection : node.startElection.1.role ≠ .leader := by
  unfold RaftNode.startElection
  simp [outside.voteless]

theorem Outside.startPreVote (now : Nat) : (node.startPreVote now).1.role ≠ .leader := by
  unfold RaftNode.startPreVote
  simp [outside.voteless, resetElection]

theorem Outside.dispatch (now : Nat) : (node.dispatch message now).1.role ≠ .leader := by
  unfold RaftNode.dispatch
  cases message.kind with
  | preVoteReq lastIndex lastTerm | snapshotChunk chunk => exact outside.leaves
  | preVoteResp granted =>
    dsimp only
    split_ifs
    · have standing : Outside { node with preVotes := node.preVotes.insert message.sender } :=
        ⟨outside.leaves, outside.sits, outside.voteless⟩
      exact standing.startElection
    · exact outside.leaves
    · exact outside.leaves
  | voteReq lastIndex lastTerm => exact outside.serves (node.voteRequest_serves message lastIndex lastTerm now)
  | voteResp granted =>
    dsimp only
    rw [if_neg (by simp [outside.sits])]
    exact outside.leaves
  | appendReq request =>
    by_cases stale : message.term < node.hardState.term
    · dsimp only [appendRequest]
      rw [if_pos stale]
      exact outside.leaves
    · exact node.appendRequest_role request now (not_lt.mp stale)
  | appendResp response => exact outside.serves (node.appendResponse_serves message response now)
  | snapshotAck transferId nextOffset accepted reason
  | followerReadRequest requestId commandHash
  | followerReadGrant requestId commandHash readIndex readTime =>
    dsimp only
    split <;> exact outside.leaves
  | timeoutNow intentIndex =>
    dsimp only
    split
    · exact outside.startElection
    · exact outside.leaves

theorem Outside.onMessageAt (now : Nat) :
    (node.onMessageAt message now).1.role ≠ .leader := by
  unfold RaftNode.onMessageAt
  split
  · exact outside.leaves
  dsimp only
  refine Outside.dispatch ?_ now
  unfold observeTerm
  split
  · refine ⟨?_, ?_, outside.voteless⟩ <;> simp [memberRole, outside.voteless]
  · exact outside

theorem Outside.tickQuorum (now : Nat) : (node.tickQuorum now).1.role ≠ .leader := by
  unfold RaftNode.tickQuorum checkQuorum
  dsimp only
  rw [if_neg (by simp [outside.leaves]), if_neg (by simp [outside.leaves])]
  change (node.tickTimers now).1.role ≠ .leader
  unfold tickTimers
  rw [if_neg (by simp [outside.leaves])]
  split
  · exact outside.startPreVote now
  · exact outside.leaves

theorem Outside.tick (now : Nat) : (node.tick now).1.role ≠ .leader := by
  have resynced : Outside node.resyncTransferFinishing := by
    unfold resyncTransferFinishing
    split
    · exact outside
    · dsimp only
      split <;> exact ⟨outside.leaves, outside.sits, outside.voteless⟩
  unfold RaftNode.tick
  dsimp only
  rw [if_neg (by simp [resynced.leaves])]
  exact resynced.tickQuorum now

theorem Outside.call (call : Call) : (node.call call).1.role ≠ .leader := by
  cases call with
  | tick now => exact outside.tick now
  | onTimer now timer =>
    change (node.onTimer now timer).1.role ≠ .leader
    unfold onTimer
    rw [if_neg outside.leaves]
    cases timer with
    | election => exact outside.startPreVote now
    | heartbeat => exact outside.leaves
  | onMessageAt message now => exact outside.onMessageAt now
  | _ => exact outside.serves (node.request_serves _ rfl)

end

end RaftNode
end CrashCourse.Raft
