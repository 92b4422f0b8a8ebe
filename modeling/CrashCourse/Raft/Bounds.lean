import CrashCourse.Raft.Agreement
import CrashCourse.Raft.Office

/-!
The shape of a node under any calls, messages and snapshots. The gap check of
`append_request` is modelled with its saturation at the end of the 64 bits, because there
a log can lose its shape.
-/

namespace CrashCourse.Raft
open CrashCourse.Core
namespace RaftNode

/-- `pushEntry` with the `saturating_add` of the gap check. -/
def pushEntry64 (node : RaftNode) (message : Message) (entry : Entry) (effects : List RaftEffect) :
    Except (List RaftEffect) RaftNode :=
  if entry.index ≠ saturatingAdd node.lastIndex 1 then
    .error (effects ++ [.trace "append_gap_rejected" entry.index,
      node.makeAppendResponse message false node.lastIndex none (saturatingAdd node.lastIndex 1)])
  else if entry.kind.isConfig then
    match node.applyConfigOnAppend entry with
    | .error _ => .error [.trace "invalid_config_rejected" entry.index]
    | .ok projected => .ok { projected with log := projected.log ++ [entry] }
  else .ok { node with log := node.log ++ [entry] }

def appendLoop64 (message : Message) : List Entry → RaftNode → List RaftEffect → List Entry →
    RaftNode × Except (List RaftEffect) (List RaftEffect × List Entry)
  | [], node, effects, appended => (node, .ok (effects, appended))
  | entry :: rest, node, effects, appended =>
    match node.entryAt entry.index with
    | some existing =>
      if existing.term = entry.term then appendLoop64 message rest node effects appended
      else if entry.index ≤ node.commitIndex then
        (node, .error (effects ++ [.trace "committed_conflict_rejected" entry.index]))
      else
        let truncated := node.truncateSuffix entry.index
        let effects := effects ++ [.truncateSuffix entry.index]
        match truncated.pushEntry64 message entry effects with
        | .error effects => (truncated, .error effects)
        | .ok pushed => appendLoop64 message rest pushed effects (appended ++ [entry])
    | none =>
      match node.pushEntry64 message entry effects with
      | .error effects => (node, .error effects)
      | .ok pushed => appendLoop64 message rest pushed effects (appended ++ [entry])

def appendRequest64 (node : RaftNode) (message : Message) (request : AppendRequest) (now : Nat) : Step :=
  if message.term < node.hardState.term then
    (node, [node.makeAppendResponse message false node.lastIndex none node.lastIndex])
  else
    let node := resetElection { node with role := node.memberRole, leaderId := some message.sender } now
    if node.termAt request.prevIndex ≠ some request.prevTerm then
      let conflictIndex :=
        if request.prevIndex > node.lastIndex then saturatingAdd node.lastIndex 1
        else max request.prevIndex (saturatingAdd node.snapshotIndex 1)
      (node, [node.makeAppendResponse message false node.lastIndex (node.termAt request.prevIndex) conflictIndex])
    else
      match appendLoop64 message request.entries node [] [] with
      | (node, .error effects) => (node, effects)
      | (node, .ok (effects, appended)) => node.acknowledgeAppend message request effects appended

def dispatch64 (node : RaftNode) (message : Message) (now : Nat) : Step :=
  match message.kind with
  | .appendReq request => node.appendRequest64 message request now
  | _ => node.dispatch message now

def onMessageAt64 (node : RaftNode) (message : Message) (now : Nat) : Step :=
  if !supportsProtocolVersion message.protoVersion then
    (node, [.trace "proto_version_rejected" node.lastIndex])
  else
    let (node, observed) := node.observeTerm message
    let (node, effects) := node.dispatch64 message now
    (node, observed ++ effects)

/-- From one state to the next the shape is kept, and nothing goes back. -/
structure Progresses (node next : RaftNode) : Prop where
  tracked : next.Tracked
  commit : node.commitIndex ≤ next.commitIndex
  applied : node.appliedIndex ≤ next.appliedIndex
  term : node.hardState.term ≤ next.hardState.term

section Steps
variable {node middle next : RaftNode} {message : Message}

theorem Progresses.refl (tracked : node.Tracked) : Progresses node node := ⟨tracked, le_rfl, le_rfl, le_rfl⟩

theorem Progresses.trans (one : Progresses node middle) (two : Progresses middle next) : Progresses node next :=
  ⟨two.tracked, one.commit.trans two.commit, one.applied.trans two.applied, one.term.trans two.term⟩

theorem Advances.progresses {passed : List Entry} (advances : Advances node passed next)
    (term : node.hardState.term ≤ next.hardState.term) : Progresses node next :=
  ⟨advances.tracked, advances.raises, advances.grows, term⟩

theorem entryAt_within (numbered : Numbered node.snapshotIndex node.log) {index : Nat}
    (above : node.snapshotIndex < index) (within : index ≤ node.lastIndex) : node.entryAt index ≠ none := by
  have found := numbered.find_index (index - node.snapshotIndex - 1)
  rw [show node.snapshotIndex + (index - node.snapshotIndex - 1) + 1 = index by omega] at found
  rw [lastIndex_numbered numbered] at within
  rw [entryAt, found]
  intro none
  have := List.getElem?_eq_none_iff.mp none
  omega

/-- With room above the snapshot, the saturating check lets a new entry pass only
where the other one does. -/
theorem pushEntry_of_pushEntry64 {entry : Entry} {effects : List RaftEffect}
    (numbered : Numbered node.snapshotIndex node.log) (room : node.snapshotIndex < u64Max)
    (free : node.entryAt entry.index = none) (pushes : node.pushEntry64 message entry effects = .ok next) :
    node.pushEntry message entry effects = .ok next := by
  unfold pushEntry64 at pushes
  split at pushes
  · cases pushes
  next place =>
    have last : entry.index = node.lastIndex + 1 := by
      rw [not_not, saturatingAdd] at place
      rcases Nat.lt_or_ge node.lastIndex u64Max with below | full
      · omega
      · rw [min_eq_right (by omega)] at place
        exact absurd (place ▸ free) (entryAt_within numbered room full)
    unfold pushEntry
    rw [if_neg (not_not.mpr last)]
    exact pushes

theorem pushEntry_term {entry : Entry} {effects : List RaftEffect}
    (pushes : node.pushEntry message entry effects = .ok next) : next.hardState = node.hardState := by
  unfold pushEntry at pushes
  split at pushes
  · cases pushes
  split at pushes
  · split at pushes
    · cases pushes
    next projected applied =>
      obtain rfl := Except.ok.inj pushes
      exact (applyConfigOnAppend_body applied).1.hardState
  · obtain rfl := Except.ok.inj pushes
    rfl

theorem appendLoop64_advances {rest appended : List Entry} {effects : List RaftEffect}
    {outcome : Except (List RaftEffect) (List RaftEffect × List Entry)} (tracked : node.Tracked)
    (room : node.snapshotIndex < u64Max) (done : appendLoop64 message rest node effects appended = (next, outcome)) :
    Advances node [] next ∧ next.hardState = node.hardState := by
  induction rest generalizing node effects appended with
  | nil =>
    rw [appendLoop64] at done
    obtain ⟨rfl, -⟩ := Prod.mk.inj done
    exact ⟨.refl tracked, rfl⟩
  | cons entry rest ih =>
    rw [appendLoop64] at done
    cases found : node.entryAt entry.index with
    | some existing =>
      simp only [found] at done
      split at done
      · exact ih tracked room done
      split at done
      · obtain ⟨rfl, -⟩ := Prod.mk.inj done
        exact ⟨.refl tracked, rfl⟩
      next uncommitted =>
        have cut := Advances.cut tracked found (not_le.mp uncommitted)
        have state : (node.truncateSuffix entry.index).hardState = node.hardState := (rebuild_body _).hardState
        split at done
        next out failed =>
          obtain ⟨rfl, -⟩ := Prod.mk.inj done
          exact ⟨cut, state⟩
        next pushed pushes =>
          have free : (node.truncateSuffix entry.index).entryAt entry.index = none := by
            rw [entryAt_truncated, if_neg (lt_irrefl _)]
          have pushes' := pushEntry_of_pushEntry64 cut.tracked.numbered (cut.base ▸ room) free pushes
          have push := pushEntry_advances cut.tracked pushes'
          obtain ⟨later, same⟩ := ih push.tracked (by rw [push.base, cut.base]; exact room) done
          exact ⟨cut.trans tracked (push.trans cut.tracked later),
            same.trans ((pushEntry_term pushes').trans state)⟩
    | none =>
      simp only [found] at done
      split at done
      next out failed =>
        obtain ⟨rfl, -⟩ := Prod.mk.inj done
        exact ⟨.refl tracked, rfl⟩
      next pushed pushes =>
        have pushes' := pushEntry_of_pushEntry64 tracked.numbered room found pushes
        have push := pushEntry_advances tracked pushes'
        obtain ⟨later, same⟩ := ih push.tracked (by rw [push.base]; exact room) done
        exact ⟨push.trans tracked later, same.trans (pushEntry_term pushes')⟩

theorem acknowledgeAppend_progresses (tracked : node.Tracked) (request : AppendRequest) (effects : List RaftEffect)
    (appended : List Entry) : Progresses node (node.acknowledgeAppend message request effects appended).1 := by
  -- the effects so far play no part in the node
  have advances : Advances node _ (node.acknowledgeAppend message request [] appended).1 :=
    acknowledgeAppend_advances tracked rfl
  refine advances.progresses ?_
  unfold acknowledgeAppend applyCommitted
  dsimp only
  split <;> exact le_rfl

theorem appendRequest64_progresses (tracked : node.Tracked) (room : node.snapshotIndex < u64Max)
    (request : AppendRequest) (now : Nat) : Progresses node (node.appendRequest64 message request now).1 := by
  have heeds : Progresses node (node.heeding message now) :=
    (Advances.of_same tracked (heeding_track node message now)).progresses le_rfl
  unfold appendRequest64
  split
  · exact .refl tracked
  dsimp only
  split
  · exact heeds
  split
  next next out done =>
    obtain ⟨advances, same⟩ := appendLoop64_advances heeds.tracked (by exact room) done
    exact heeds.trans (advances.progresses (by rw [same]))
  next next out appended done =>
    obtain ⟨advances, same⟩ := appendLoop64_advances heeds.tracked (by exact room) done
    exact (heeds.trans (advances.progresses (by rw [same]))).trans
      (acknowledgeAppend_progresses advances.tracked request out appended)

theorem dispatch_term (now : Nat) (plain : ∀ request, message.kind ≠ .appendReq request) :
    node.hardState.term ≤ (node.dispatch message now).1.hardState.term := by
  cases held : node.plainMessage message with
  | true => exact (node.dispatch_moves message now held).term_le
  | false =>
    cases shape : message.kind with
    | appendReq request => exact absurd shape (plain request)
    | appendResp response =>
      simp only [dispatch, shape]
      exact (appendResponse_serves node message response now).term.ge
    | _ =>
      rw [plainMessage, shape] at held
      cases held

theorem onMessageAt64_progresses (tracked : node.Tracked) (room : node.snapshotIndex < u64Max) (message : Message)
    (now : Nat) : Progresses node (node.onMessageAt64 message now).1 := by
  unfold onMessageAt64
  split
  · exact .refl tracked
  have observed : Progresses node (node.observeTerm message).1 :=
    (Advances.of_same tracked (node.observeTerm_track message)).progresses (node.observeTerm_track message).term
  have room' : (node.observeTerm message).1.snapshotIndex < u64Max := by
    rw [(node.observeTerm_track message).snapshotIndex]
    exact room
  change Progresses node ((node.observeTerm message).1.dispatch64 message now).1
  refine observed.trans ?_
  generalize (node.observeTerm message).1 = ready at observed room' ⊢
  unfold dispatch64
  split
  next request shape => exact appendRequest64_progresses observed.tracked room' request now
  next plain =>
    have streams : Streams ready _ (ready.dispatch message now) := dispatch_streams observed.tracked now
    obtain ⟨passed, advances, -⟩ := streams
    exact advances.progresses (dispatch_term now plain)

theorem call_term {call : Call} (other : ∀ message now, call ≠ .onMessageAt message now) :
    node.hardState.term ≤ (node.call call).1.hardState.term := by
  cases call with
  | onMessageAt message now => exact absurd rfl (other message now)
  | tick now => exact (node.tick_moves now).term_le
  | onTimer now timer => exact (node.onTimer_moves now timer).term_le
  | _ => exact (node.request_serves _ rfl).term.ge

theorem Numbered.filter_gt {base index : Nat} {log : List Entry} (numbered : Numbered base log)
    (above : base ≤ index) : (log.filter fun entry => decide (entry.index > index)) = log.drop (index - base) := by
  rw [← numbered.filter_ge, show base + (index - base) + 1 = index + 1 by omega]
  rfl

theorem installSnapshotState_progresses (tracked : node.Tracked) (index term : Nat) :
    Progresses node (node.installSnapshotState index term) := by
  unfold installSnapshotState
  split
  · exact .refl tracked
  next taken =>
    have above : node.snapshotIndex ≤ index := by omega
    have last := lastIndex_numbered tracked.numbered
    have committed := tracked.committed
    have applied := tracked.applied
    have numbered : Numbered index (node.log.drop (index - node.snapshotIndex)) := by
      rcases Nat.lt_or_ge node.log.length (index - node.snapshotIndex) with beyond | within
      · rw [List.drop_eq_nil_of_le beyond.le]
        trivial
      · have rest := tracked.numbered.drop _ within
        rwa [show node.snapshotIndex + (index - node.snapshotIndex) = index by omega] at rest
    rw [Numbered.filter_gt tracked.numbered above]
    refine ⟨⟨numbered, le_max_right _ _, max_le_max applied le_rfl, ?_⟩, le_max_left _ _, le_max_left _ _, le_rfl⟩
    rw [lastIndex_numbered numbered]
    simp only [List.length_drop]
    omega

end Steps

inductive Motion where
  | call (call : Call)
  | install (index term : Nat)

def act (node : RaftNode) : Motion → RaftNode
  | .call (.onMessageAt message now) => (node.onMessageAt64 message now).1
  | .call call => (node.call call).1
  | .install index term => node.installSnapshotState index term

def acts (node : RaftNode) (motions : List Motion) : RaftNode := motions.foldl act node

def answerFits : Call → Bool
  | .onMessageAt message _ =>
    match message.kind with
    | .appendResp response => decide (response.matchIndex < u64Max)
    | _ => true
  | _ => true

/-- The term and the two entries that a call may add fit into 64 bits. -/
def fits (node : RaftNode) : Motion → Bool
  | .call call =>
    decide (node.hardState.term < u64Max) && decide (node.lastIndex + 2 ≤ u64Max) && answerFits call
  | .install .. => true

def fitsAll (node : RaftNode) : List Motion → Bool
  | [] => true
  | motion :: rest => node.fits motion && (node.act motion).fitsAll rest

theorem act_progresses {node : RaftNode} (tracked : node.Tracked) {motion : Motion} (fit : node.fits motion = true) :
    Progresses node (node.act motion) := by
  cases motion with
  | install index term => exact installSnapshotState_progresses tracked index term
  | call call =>
    have room : node.snapshotIndex < u64Max := by
      have last := lastIndex_numbered tracked.numbered
      simp only [fits, Bool.and_eq_true, decide_eq_true_eq] at fit
      omega
    cases call with
    | onMessageAt message now => exact onMessageAt64_progresses tracked room message now
    | _ =>
      obtain ⟨passed, advances, -⟩ := call_streams tracked _
      exact advances.progresses (call_term (by rintro _ _ ⟨⟩))

end RaftNode

/-- Whatever is sent to a node and installed on it, its log stays contiguous above its snapshot with the applied and
the commit index inside, and neither of these nor the term goes back, while the counters fit. -/
theorem log_shape_kept {node : RaftNode} (tracked : node.Tracked) (motions : List RaftNode.Motion)
    (fit : node.fitsAll motions = true) : RaftNode.Progresses node (node.acts motions) := by
  induction motions generalizing node with
  | nil => exact .refl tracked
  | cons motion rest ih =>
    obtain ⟨here, later⟩ := Bool.and_eq_true_iff.mp fit
    have step := RaftNode.act_progresses tracked here
    exact step.trans (ih step.tracked later)

def appendOf (request : AppendRequest) : RaftNode.Motion := .call (.onMessageAt ⟨2, 1, 2, 1, .appendReq request⟩ 0)

def roughMotions : List RaftNode.Motion :=
  [.install 5 1, appendOf ⟨5, 1, [⟨1, 6, .noop, []⟩], 5, 0⟩, appendOf ⟨6, 1, [⟨1, 9, .noop, []⟩], 40, 0⟩]

theorem log_shape_kept_blankFollower :
    Numbered (blankFollower.acts roughMotions).snapshotIndex (blankFollower.acts roughMotions).log ∧
    (blankFollower.acts roughMotions).commitIndex ≤ (blankFollower.acts roughMotions).lastIndex ∧
    (blankFollower.acts roughMotions).log = [⟨1, 6, .noop, []⟩] := by
  have tracked : blankFollower.Tracked := RaftNode.new_tracked _ _ _ _
  have kept := log_shape_kept tracked roughMotions (by decide +kernel)
  exact ⟨kept.tracked.numbered, kept.tracked.committed, by decide +kernel⟩

/-- Above a snapshot at the largest index an entry of the same index is taken. -/
theorem last_index_is_taken_again :
    (blankFollower.acts [.install u64Max 1, appendOf ⟨u64Max, 1, [⟨1, u64Max, .noop, []⟩], 0, 0⟩]).log =
      [⟨1, u64Max, .noop, []⟩] ∧ ¬ Numbered
      (blankFollower.acts [.install u64Max 1, appendOf ⟨u64Max, 1, [⟨1, u64Max, .noop, []⟩], 0, 0⟩]).snapshotIndex
      (blankFollower.acts [.install u64Max 1, appendOf ⟨u64Max, 1, [⟨1, u64Max, .noop, []⟩], 0, 0⟩]).log := by
  decide +kernel

end CrashCourse.Raft
