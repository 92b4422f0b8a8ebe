import CrashCourse.Raft.Effects

/-!
The stream of applied entries, compared with the log between the two applied indexes.
-/

namespace CrashCourse.Raft
open CrashCourse.Core

def appliedBy : List RaftEffect → List Entry
  | [] => []
  | .apply entries :: rest => entries ++ appliedBy rest
  | _ :: rest => appliedBy rest

theorem appliedBy_append (first second : List RaftEffect) :
    appliedBy (first ++ second) = appliedBy first ++ appliedBy second := by
  induction first with
  | nil => rfl
  | cons effect rest ih =>
    cases effect <;> simp only [List.cons_append, appliedBy, ih, List.append_assoc]

theorem appliedBy_inert {effects : List RaftEffect} (inert : ∀ effect ∈ effects, effect.inert) :
    appliedBy effects = [] := by
  induction effects with
  | nil => rfl
  | cons effect rest ih =>
    have here := inert effect List.mem_cons_self
    have later := ih fun other member => inert other (List.mem_cons_of_mem _ member)
    cases effect <;> first | exact later | cases here

def between (log : List Entry) (low high : Nat) : List Entry :=
  log.filter fun entry => decide (low < entry.index) && decide (entry.index ≤ high)

section Between
variable {base low middle high : Nat} {log : List Entry} (numbered : Numbered base log)
include numbered

theorem between_eq (above : base ≤ low) : between log low high = (log.drop (low - base)).take (high - low) := by
  have upper := numbered.filter_lt (high - base)
  by_cases order : low ≤ high
  · rw [show base + (high - base) + 1 = high + 1 by omega] at upper
    have split : between log low high =
        (log.filter fun entry => decide (entry.index < high + 1)).filter
          fun entry => decide (entry.index ≥ low + 1) := by
      rw [List.filter_filter]
      unfold between
      congr 1
      funext entry
      simp only [Nat.lt_succ_iff, ge_iff_le, Nat.succ_le_iff]
    have cut := (numbered.take (high - base)).filter_ge (low - base)
    rw [show base + (low - base) + 1 = low + 1 by omega] at cut
    rw [split, upper, cut, List.drop_take, show high - base - (low - base) = high - low by omega]
  · rw [show high - low = 0 by omega, List.take_zero]
    unfold between
    rw [List.filter_eq_nil_iff]
    intro entry member
    simp only [Bool.and_eq_true, decide_eq_true_eq]
    omega

theorem between_append (above : base ≤ low) (first : low ≤ middle) (second : middle ≤ high) :
    between log low middle ++ between log middle high = between log low high := by
  rw [between_eq numbered above, between_eq numbered (above.trans first), between_eq numbered above,
    show high - low = middle - low + (high - middle) by omega, List.take_add, List.drop_drop,
    show low - base + (middle - low) = middle - base by omega]

theorem Numbered.indices : log.map Entry.index = List.range' (base + 1) log.length := by
  induction log generalizing base with
  | nil => rfl
  | cons entry rest ih =>
    rw [List.map_cons, List.length_cons, List.range'_succ, ih numbered.2, numbered.1]

theorem between_indices (above : base ≤ low) (within : high ≤ base + log.length) :
    (between log low high).map Entry.index = List.range' (low + 1) (high - low) := by
  by_cases order : low ≤ high
  · have window := ((numbered.drop (low - base) (by omega)).take (high - low)).indices
    rw [between_eq numbered above, window, show base + (low - base) = low by omega]
    congr 1
    simp only [List.length_take, List.length_drop]
    omega
  · rw [between_eq numbered above, show high - low = 0 by omega]
    rfl

theorem collectCommitted_eq {applied fuel : Nat} (above : base ≤ applied)
    (within : applied + fuel ≤ base + log.length) :
    RaftNode.collectCommitted log fuel applied = between log applied (applied + fuel) := by
  rw [between_eq numbered above, Nat.add_sub_cancel_left]
  induction fuel generalizing applied with
  | zero => rfl
  | succ fuel ih =>
    have found := numbered.find_index (applied - base)
    rw [show base + (applied - base) + 1 = applied + 1 by omega] at found
    have held : log[applied - base]? = some (log[applied - base]) := List.getElem?_eq_getElem _
    rw [RaftNode.collectCommitted, found, held, List.drop_eq_getElem_cons (by omega), List.take_succ_cons]
    dsimp only
    rw [ih (by omega) (by omega), show applied + 1 - base = applied - base + 1 by omega]

end Between

namespace RaftNode
variable {node middle next : RaftNode} {effects : List RaftEffect} {first second : List Entry}
  {message : Message}

/-- The log is contiguous above the snapshot, and the applied and the commit index lie
within it. -/
structure Tracked (node : RaftNode) : Prop where
  numbered : Numbered node.snapshotIndex node.log
  base : node.snapshotIndex ≤ node.appliedIndex
  applied : node.appliedIndex ≤ node.commitIndex
  committed : node.commitIndex ≤ node.lastIndex

/-- The applied index passes over these entries, and what was committed stays in the
log. -/
structure Advances (node : RaftNode) (passed : List Entry) (next : RaftNode) : Prop where
  tracked : next.Tracked
  base : next.snapshotIndex = node.snapshotIndex
  raises : node.commitIndex ≤ next.commitIndex
  grows : node.appliedIndex ≤ next.appliedIndex
  passed : between next.log node.appliedIndex next.appliedIndex = passed
  keeps : ∀ low high, high ≤ node.commitIndex → between next.log low high = between node.log low high

theorem Tracked.of_same (tracked : node.Tracked) {steady : Prop} (same : node.SameTrack next steady) : next.Tracked := by
  refine ⟨?_, ?_, ?_, ?_⟩
  · rw [same.snapshotIndex, same.log]; exact tracked.numbered
  · rw [same.snapshotIndex, same.appliedIndex]; exact tracked.base
  · rw [same.appliedIndex, same.commitIndex]; exact tracked.applied
  · rw [same.commitIndex, same.lastIndex]; exact tracked.committed

namespace Advances

theorem of_same (tracked : node.Tracked) {steady : Prop} (same : node.SameTrack next steady) : Advances node [] next := by
  refine ⟨tracked.of_same same, same.snapshotIndex, same.commitIndex.ge, same.appliedIndex.ge, ?_, ?_⟩
  · rw [same.appliedIndex, between_eq (tracked.of_same same).numbered
      (by rw [same.snapshotIndex]; exact tracked.base), Nat.sub_self, List.take_zero]
  · intro low high within
    rw [same.log]

theorem refl (tracked : node.Tracked) : Advances node [] node :=
  of_same tracked (.refl node : node.SameTrack node)

theorem trans (tracked : node.Tracked) (one : Advances node first middle)
    (two : Advances middle second next) : Advances node (first ++ second) next := by
  have first_kept := two.keeps node.appliedIndex middle.appliedIndex one.tracked.applied
  refine ⟨two.tracked, two.base.trans one.base, one.raises.trans two.raises,
    one.grows.trans two.grows, ?_, ?_⟩
  · rw [← between_append two.tracked.numbered (by rw [two.base, one.base]; exact tracked.base)
      one.grows two.grows, first_kept, one.passed, two.passed]
  · intro low high within
    rw [two.keeps low high (within.trans one.raises), one.keeps low high within]

theorem silent (tracked : next.Tracked) (base : next.snapshotIndex = node.snapshotIndex)
    (commit : next.commitIndex = node.commitIndex) (applied : next.appliedIndex = node.appliedIndex)
    (keeps : ∀ low high, high ≤ node.commitIndex →
      between next.log low high = between node.log low high) : Advances node [] next := by
  refine ⟨tracked, base, commit.ge, applied.ge, ?_, keeps⟩
  rw [← applied, between_eq tracked.numbered tracked.base, Nat.sub_self, List.take_zero]

theorem push {entry : Entry} (tracked : node.Tracked) (index : entry.index = node.lastIndex + 1)
    (log : next.log = node.log ++ [entry]) (base : next.snapshotIndex = node.snapshotIndex)
    (commit : next.commitIndex = node.commitIndex) (applied : next.appliedIndex = node.appliedIndex) :
    Advances node [] next := by
  have last := lastIndex_numbered tracked.numbered
  have inside := tracked.committed
  have numbered : Numbered next.snapshotIndex next.log := by
    rw [base, log]
    exact tracked.numbered.append (by rw [index, last])
  refine silent ⟨numbered, ?_, ?_, ?_⟩ base commit applied ?_
  · rw [base, applied]; exact tracked.base
  · rw [commit, applied]; exact tracked.applied
  · rw [lastIndex_numbered numbered, base, log, commit, List.length_append]
    omega
  · intro low high within
    have above : ¬ entry.index ≤ high := by omega
    rw [log]
    unfold between
    rw [List.filter_append, List.filter_singleton]
    simp [above]

theorem cut {index : Nat} {existing : Entry} (tracked : node.Tracked) (found : node.entryAt index = some existing)
    (uncommitted : node.commitIndex < index) : Advances node [] (node.truncateSuffix index) := by
  have body := rebuild_body
    { node with log := node.log.filter fun existing => decide (existing.index < index) }
  obtain ⟨kept, place, held, log, base⟩ := truncateSuffix_found tracked.numbered found
  have reaches := (List.getElem?_eq_some_iff.mp held).1
  have numbered : Numbered (node.truncateSuffix index).snapshotIndex (node.truncateSuffix index).log := by
    rw [base, log]
    exact tracked.numbered.take _
  refine silent ⟨numbered, ?_, ?_, ?_⟩ base body.commitIndex body.appliedIndex ?_
  · rw [base]; exact tracked.base.trans body.appliedIndex.ge
  · exact body.appliedIndex.le.trans (tracked.applied.trans body.commitIndex.ge)
  · rw [lastIndex_numbered numbered, base, log, List.length_take]
    have commit : (node.truncateSuffix index).commitIndex = node.commitIndex := body.commitIndex
    omega
  · intro low high within
    rw [(truncateSuffix_log node index).1]
    unfold between
    rw [List.filter_filter]
    apply List.filter_congr
    intro entry _
    have below : entry.index ≤ high → entry.index < index := by omega
    by_cases inside : entry.index ≤ high
    · simp [inside, below inside]
    · simp [inside]

theorem commit {index : Nat} (tracked : node.Tracked) (raises : node.commitIndex ≤ index)
    (within : index ≤ node.lastIndex) : (applyCommitted { node with commitIndex := index }).1.appliedIndex = index ∧
      Advances node (appliedBy (applyCommitted { node with commitIndex := index }).2)
        (applyCommitted { node with commitIndex := index }).1 := by
  have last := lastIndex_numbered tracked.numbered
  have inside := tracked.applied
  have reach : node.appliedIndex + (index - node.appliedIndex) = index := by omega
  have collected : collectCommitted node.log (index - node.appliedIndex) node.appliedIndex =
      between node.log node.appliedIndex index := by
    rw [collectCommitted_eq tracked.numbered tracked.base (by omega), reach]
  have indices : (between node.log node.appliedIndex index).length = index - node.appliedIndex := by
    rw [← List.length_map, between_indices tracked.numbered tracked.base (by omega), List.length_range']
  have reached : (applyCommitted { node with commitIndex := index }).1.appliedIndex = index := by
    change node.appliedIndex + (collectCommitted node.log (index - node.appliedIndex)
      node.appliedIndex).length = index
    rw [collected, indices]
    omega
  have handed : appliedBy (applyCommitted { node with commitIndex := index }).2 =
      between node.log node.appliedIndex index := by
    rw [← collected]
    unfold applyCommitted
    dsimp only
    split
    next none => exact (List.isEmpty_iff.mp none).symm
    next => exact List.append_nil _
  refine ⟨reached, ⟨tracked.numbered, ?_, ?_, within⟩, rfl, raises, ?_, ?_, ?_⟩
  · rw [reached]; exact tracked.base.trans (inside.trans raises)
  · exact reached.le
  · rw [reached]; exact inside.trans raises
  · rw [handed, reached]
    rfl
  · intro low high _
    rfl

end Advances

theorem Moves.advances {steady : Prop} (moves : Moves steady node effects next) (tracked : node.Tracked) :
    Advances node (appliedBy effects) next := by
  induction moves with
  | idle same inert =>
    rw [appliedBy_inert inert]
    exact .of_same tracked same
  | push index same =>
    exact .push tracked index same.log same.snapshotIndex same.commitIndex same.appliedIndex
  | commit raises within => exact (Advances.commit tracked raises.le within).2
  | trans one two ih ih' =>
    rw [appliedBy_append]
    exact (ih tracked).trans tracked (ih' (ih tracked).tracked)

theorem pushEntry_body {entry : Entry} (pushes : node.pushEntry message entry effects = .ok next) :
    next.commitIndex = node.commitIndex ∧ next.appliedIndex = node.appliedIndex := by
  unfold pushEntry at pushes
  split at pushes
  · cases pushes
  split at pushes
  · split at pushes
    · cases pushes
    next projected applied =>
      obtain rfl := Except.ok.inj pushes
      have body := (applyConfigOnAppend_body applied).1
      exact ⟨body.commitIndex, body.appliedIndex⟩
  · obtain rfl := Except.ok.inj pushes
    exact ⟨rfl, rfl⟩

theorem pushEntry_advances {entry : Entry} (tracked : node.Tracked)
    (pushes : node.pushEntry message entry effects = .ok next) : Advances node [] next := by
  obtain ⟨index, log, base⟩ := pushEntry_ok pushes
  obtain ⟨commit, applied⟩ := pushEntry_body pushes
  exact .push tracked index log base commit applied

theorem pushEntry_quiet {entry : Entry} {out : List RaftEffect} (quiet : appliedBy effects = [])
    (failed : node.pushEntry message entry effects = .error out) : appliedBy out = [] := by
  unfold pushEntry at failed
  split at failed
  · obtain rfl := Except.error.inj failed
    rw [appliedBy_append, quiet]
    rfl
  · split at failed
    · split at failed
      · obtain rfl := Except.error.inj failed
        rfl
      · cases failed
    · cases failed

def leftBy : Except (List RaftEffect) (List RaftEffect × List Entry) → List RaftEffect
  | .error out => out
  | .ok (out, _) => out

theorem appendLoop_advances {rest appended : List Entry}
    {outcome : Except (List RaftEffect) (List RaftEffect × List Entry)} (tracked : node.Tracked)
    (quiet : appliedBy effects = []) (done : appendLoop message rest node effects appended = (next, outcome)) :
    Advances node [] next ∧ appliedBy (leftBy outcome) = [] := by
  induction rest generalizing node effects appended with
  | nil =>
    rw [appendLoop] at done
    obtain ⟨rfl, rfl⟩ := Prod.mk.inj done
    exact ⟨.refl tracked, quiet⟩
  | cons entry rest ih =>
    rw [appendLoop] at done
    cases found : node.entryAt entry.index with
    | some existing =>
      simp only [found] at done
      by_cases same : existing.term = entry.term
      · rw [if_pos same] at done
        exact ih tracked quiet done
      rw [if_neg same] at done
      by_cases committed : entry.index ≤ node.commitIndex
      · rw [if_pos committed] at done
        obtain ⟨rfl, rfl⟩ := Prod.mk.inj done
        refine ⟨.refl tracked, ?_⟩
        rw [leftBy, appliedBy_append, quiet]
        rfl
      · rw [if_neg committed] at done
        have cut := Advances.cut tracked found (not_le.mp committed)
        have still : appliedBy (effects ++ [.truncateSuffix entry.index]) = [] := by
          rw [appliedBy_append, quiet]
          rfl
        split at done
        next out failed =>
          obtain ⟨rfl, rfl⟩ := Prod.mk.inj done
          exact ⟨cut, pushEntry_quiet still failed⟩
        next pushed pushes =>
          have push := pushEntry_advances cut.tracked pushes
          obtain ⟨later, silent⟩ := ih push.tracked still done
          exact ⟨cut.trans tracked (push.trans cut.tracked later), silent⟩
    | none =>
      simp only [found] at done
      split at done
      next out failed =>
        obtain ⟨rfl, rfl⟩ := Prod.mk.inj done
        exact ⟨.refl tracked, pushEntry_quiet quiet failed⟩
      next pushed pushes =>
        have push := pushEntry_advances tracked pushes
        obtain ⟨later, silent⟩ := ih push.tracked quiet done
        exact ⟨push.trans tracked later, silent⟩

theorem acknowledgeAppend_advances {request : AppendRequest} {appended : List Entry}
    (tracked : node.Tracked) (quiet : appliedBy effects = []) :
    Advances node (appliedBy (node.acknowledgeAppend message request effects appended).2)
      (node.acknowledgeAppend message request effects appended).1 := by
  have written : appliedBy
      (if appended.isEmpty then effects else effects ++ [.persistEntries appended]) = [] := by
    split
    · exact quiet
    · rw [appliedBy_append, quiet]
      rfl
  unfold acknowledgeAppend
  dsimp only
  rw [appliedBy_append, appliedBy_append, written, List.nil_append]
  split
  next raised =>
    have commit := (Advances.commit tracked (le_min raised.le tracked.committed)
      (min_le_right request.leaderCommit _)).2
    exact (List.append_nil _).symm ▸ commit
  next => exact .refl tracked

theorem appendRequest_advances (tracked : node.Tracked) (request : AppendRequest) (now : Nat) :
    Advances node (appliedBy (node.appendRequest message request now).2)
      (node.appendRequest message request now).1 := by
  rcases appendRequest_cases node message request now with
    ⟨effect, inert, same, only, -⟩ | ⟨next, outcome, done, -, result⟩
  · rw [only, appliedBy_inert (by simpa using inert)]
    exact .of_same tracked same
  have heeds := Advances.of_same tracked (heeding_track node message now)
  obtain ⟨looped, quiet⟩ := appendLoop_advances heeds.tracked rfl done
  have taken := heeds.trans tracked looped
  cases outcome with
  | error out =>
    rw [result]
    dsimp only
    rw [show appliedBy out = [] from quiet]
    exact taken
  | ok written =>
    rw [result]
    exact taken.trans tracked (acknowledgeAppend_advances looped.tracked quiet)

def losesCommit (node : RaftNode) (message : Message) : Bool :=
  match message.kind with
  | .appendResp response =>
    node.dropsAnswer message response
      && decide (node.commitIndex < (node.recordMatch message.sender response).committable)
  | _ => false

def keepsStream (node : RaftNode) : Call → Bool
  | .onMessageAt message _ =>
    !(supportsProtocolVersion message.protoVersion && (node.observeTerm message).1.losesCommit message)
  | _ => true

/-- A step hands over what the applied index passes, or hands over nothing. -/
def Streams (node : RaftNode) (keeps : Bool) (step : Step) : Prop :=
  ∃ passed, Advances node passed step.1 ∧ (keeps = true → appliedBy step.2 = passed) ∧
    (keeps = false → appliedBy step.2 = [] ∧ passed ≠ [])

theorem Advances.streams {step : Step} (advances : Advances node (appliedBy step.2) step.1) :
    Streams node true step := ⟨_, advances, fun _ => rfl, by simp⟩

section
variable (tracked : node.Tracked)
include tracked

theorem advanceCommit_advances :
    Advances node (appliedBy node.advanceCommit.2) node.advanceCommit.1 ∧
      (appliedBy node.advanceCommit.2 ≠ [] ↔ node.commitIndex < node.committable) := by
  have moves : Moves True node _ _ := advanceCommit_moves node
  refine ⟨moves.advances tracked, ?_⟩
  unfold advanceCommit
  split
  next raised =>
    obtain ⟨reached, advances⟩ := Advances.commit tracked raised.le (node.committable_le raised)
    refine ⟨fun _ => raised, fun _ none => ?_⟩
    have window := advances.passed
    have last := lastIndex_numbered tracked.numbered
    have inside := node.committable_le raised
    rw [none, reached] at window
    have indices : (between node.log node.appliedIndex node.committable).map Entry.index = _ :=
      between_indices tracked.numbered tracked.base (by omega)
    rw [show between node.log node.appliedIndex node.committable = [] from window] at indices
    have length := congrArg List.length indices
    have := tracked.applied
    simp only [List.map_nil, List.length_nil, List.length_range'] at length
    omega
  next same => exact ⟨fun moved => absurd rfl moved, fun raised => absurd raised same⟩

theorem appendResponse_streams {response : AppendResponse} (now : Nat)
    (shape : message.kind = .appendResp response) :
    Streams node (!node.losesCommit message) (node.appendResponse message response now) := by
  cases dropped : node.dropsAnswer message response with
  | false =>
    simp only [losesCommit, shape, dropped, Bool.false_and, Bool.not_false]
    exact ((node.appendResponse_moves message response now dropped).advances tracked).streams
  | true =>
    have same : node.SameTrack
        (({ node with lastContact := node.lastContact.insert message.sender now } : RaftNode).recordMatch
          message.sender response) := { SameTrack.refl node with }
    have recorded := Advances.of_same tracked same
    obtain ⟨commits, streams⟩ := advanceCommit_advances recorded.tracked
    have counted := Advances.of_same commits.tracked (countReadAck_idle _ message.sender response).1
    have passes := recorded.trans tracked (commits.trans recorded.tracked counted)
    rw [List.nil_append, List.append_nil] at passes
    rw [appendResponse_dropped now dropped]
    refine ⟨_, passes, ?_⟩
    -- the contact time plays no part in what a quorum holds
    have raised : _ ↔ node.commitIndex < (node.recordMatch message.sender response).committable := streams
    simp only [losesCommit, shape, dropped, Bool.true_and]
    constructor
    · intro keeps
      have kept := mt raised.mp (by simpa using keeps)
      exact (not_not.mp kept).symm
    · intro loses
      exact ⟨rfl, raised.mpr (by simpa using loses)⟩

theorem dispatch_streams (now : Nat) :
    Streams node (!node.losesCommit message) (node.dispatch message now) := by
  cases shape : message.kind with
  | appendReq request =>
    simp only [dispatch, losesCommit, shape, Bool.not_false]
    exact (appendRequest_advances tracked request now).streams
  | appendResp response =>
    simp only [dispatch, shape]
    exact appendResponse_streams tracked now shape
  | _ =>
    have plain : node.plainMessage message := by simp [plainMessage, shape]
    have keeps : node.losesCommit message = false := by simp [losesCommit, shape]
    rw [keeps]
    exact ((node.dispatch_moves message now plain).advances tracked).streams

theorem onMessageAt_streams (message : Message) (now : Nat) :
    Streams node (node.keepsStream (.onMessageAt message now)) (node.onMessageAt message now) := by
  change Streams node (!(supportsProtocolVersion message.protoVersion &&
    (node.observeTerm message).1.losesCommit message)) _
  unfold onMessageAt
  cases supportsProtocolVersion message.protoVersion with
  | false => exact ⟨[], .refl tracked, fun _ => rfl, by simp⟩
  | true =>
    have observed := Advances.of_same tracked (node.observeTerm_track message)
    have silent : appliedBy (node.observeTerm message).2 = [] := by
      unfold observeTerm
      split <;> rfl
    obtain ⟨passed, advances, handed⟩ := dispatch_streams observed.tracked now
    refine ⟨passed, observed.trans tracked advances, ?_⟩
    rw [if_neg (by simp), Bool.true_and, appliedBy_append, silent, List.nil_append]
    exact handed

theorem plainCall_streams {call : Call} (plain : node.plainCall call) :
    Streams node true (node.call call) := by
  cases active : node.activates call with
  | true =>
    rw [call_activates node call active]
    refine ⟨[], .silent ?_ rfl rfl rfl fun _ _ _ => rfl, fun _ => rfl, by simp⟩
    exact ⟨tracked.numbered, tracked.base, tracked.applied, tracked.committed⟩
  | false => exact ((node.call_moves call plain active).advances tracked).streams

theorem call_streams (call : Call) :
    Streams node (node.keepsStream call) (node.call call) := by
  cases call with
  | onMessageAt message now => exact onMessageAt_streams tracked message now
  | _ => exact plainCall_streams tracked rfl

end

def calls (node : RaftNode) : List Call → Step
  | [] => (node, [])
  | call :: rest =>
    let (next, effects) := node.call call
    let (last, later) := next.calls rest
    (last, effects ++ later)

def keepsStreamAll (node : RaftNode) : List Call → Bool
  | [] => true
  | call :: rest => node.keepsStream call && (node.call call).1.keepsStreamAll rest

/-- Once a call has lost entries, what was handed over stays behind for good. -/
theorem calls_stream (tracked : node.Tracked) (made : List Call) :
    ∃ passed, Advances node passed (node.calls made).1 ∧
      (node.keepsStreamAll made = true → appliedBy (node.calls made).2 = passed) ∧
      (node.keepsStreamAll made = false →
        (appliedBy (node.calls made).2).length < passed.length) := by
  induction made generalizing node with
  | nil => exact ⟨[], .refl tracked, fun _ => rfl, by simp [keepsStreamAll]⟩
  | cons call rest ih =>
    obtain ⟨here, advances, handed, lost⟩ := call_streams tracked call
    obtain ⟨there, later, follows, behind⟩ := ih advances.tracked
    refine ⟨here ++ there, advances.trans tracked later, ?_⟩
    dsimp only [calls, keepsStreamAll]
    rw [appliedBy_append]
    cases keeps : node.keepsStream call with
    | true =>
      rw [handed keeps, Bool.true_and]
      refine ⟨fun all => by rw [follows all], fun lost => ?_⟩
      rw [List.length_append, List.length_append]
      exact Nat.add_lt_add_left (behind lost) _
    | false =>
      refine ⟨fun all => by simp at all, fun _ => ?_⟩
      have gone := List.length_pos_iff.mpr (lost keeps).2
      rw [(lost keeps).1, List.nil_append, List.length_append]
      cases rest_keeps : (node.call call).1.keepsStreamAll rest with
      | true => rw [follows rest_keeps]; omega
      | false => have := behind rest_keeps; omega

end RaftNode

/-- In every run the entries handed over are those between the two applied indexes,
exactly if no call drops the answer that lets it commit. -/
theorem apply_stream_complete {node : RaftNode} (tracked : node.Tracked) (made : List Call) :
    (appliedBy (node.calls made).2 =
        between (node.calls made).1.log node.appliedIndex (node.calls made).1.appliedIndex ↔
      node.keepsStreamAll made) ∧
    (between (node.calls made).1.log node.appliedIndex (node.calls made).1.appliedIndex).map
        Entry.index =
      List.range' (node.appliedIndex + 1) ((node.calls made).1.appliedIndex - node.appliedIndex) := by
  obtain ⟨passed, advances, handed, behind⟩ := RaftNode.calls_stream tracked made
  have last := RaftNode.lastIndex_numbered advances.tracked.numbered
  have inside := advances.tracked.applied.trans advances.tracked.committed
  refine ⟨?_, between_indices advances.tracked.numbered (advances.base ▸ tracked.base) (last ▸ inside)⟩
  rw [advances.passed]
  refine ⟨fun same => ?_, handed⟩
  cases keeps : node.keepsStreamAll made with
  | true => rfl
  | false => exact absurd (congrArg List.length same) (behind keeps).ne

theorem RaftNode.new_tracked (id : NodeId) (voters : BTreeSet NodeId) (seed : UInt64)
    (config : RaftConfig) : (RaftNode.new id voters seed config).Tracked :=
  ⟨trivial, le_rfl, le_rfl, le_rfl⟩

def pairNode : RaftNode := RaftNode.new 1 (Std.ExtTreeSet.ofList [1, 2] compare) 1 .default

def pairAnswer (kind : MessageKind) : Call := .onMessageAt ⟨2, 2, 1, 1, kind⟩ 0

def pairAck (index : Nat) : Call := pairAnswer (.appendResp ⟨true, index, none, 0, 0⟩)

def pairElection : List Call :=
  [.onTimer 0 .election, pairAnswer (.preVoteResp true), pairAnswer (.voteResp true), pairAck 1]

theorem apply_stream_complete_pair : (appliedBy (pairNode.calls pairElection).2).map Entry.index = [1] := by
  have tracked : pairNode.Tracked := RaftNode.new_tracked _ _ _ _
  have complete := apply_stream_complete tracked pairElection
  have handed := complete.1.mpr (by decide +kernel)
  have applied : (pairNode.calls pairElection).1.appliedIndex = 1 := by decide +kernel
  have indices := complete.2
  rw [handed]
  exact indices.trans (congrArg (fun index => List.range' 1 (index - 0)) applied)

/-- Node 1 removes node 2, whose answer lets node 1, now alone, commit the last entry;
it is applied but never handed over. -/
theorem retiring_answer_loses_entry : (pairNode.calls (pairElection ++
      [.enterJoint (Std.ExtTreeSet.ofList [1] compare), pairAck 2, .leaveJoint, pairAck 3])).1.appliedIndex = 3 ∧
    (appliedBy (pairNode.calls (pairElection ++
      [.enterJoint (Std.ExtTreeSet.ofList [1] compare), pairAck 2, .leaveJoint, pairAck 3])).2).map
        Entry.index = [1, 2] := by
  decide +kernel

end CrashCourse.Raft
