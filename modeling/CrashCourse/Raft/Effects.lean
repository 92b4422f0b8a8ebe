import CrashCourse.Raft.Moves
import CrashCourse.Raft.Compaction

/-!
The durable copy of the log that a host writes as the effects tell it, compared with
the log in memory on every way a call can end.
-/

namespace CrashCourse.Raft
open CrashCourse.Core

def mirror (log : List Entry) : List RaftEffect → List Entry
  | [] => log
  | .persistEntries entries :: rest => mirror (log ++ entries) rest
  | .truncateSuffix index :: rest =>
    mirror (log.filter fun entry => decide (entry.index < index)) rest
  | _ :: rest => mirror log rest

theorem mirror_append (log : List Entry) (first second : List RaftEffect) :
    mirror log (first ++ second) = mirror (mirror log first) second := by
  induction first generalizing log with
  | nil => rfl
  | cons effect rest ih => cases effect <;> exact ih _

theorem mirror_inert (log : List Entry) {effects : List RaftEffect}
    (inert : ∀ effect ∈ effects, effect.inert) : mirror log effects = log := by
  induction effects with
  | nil => rfl
  | cons effect rest ih =>
    have here := inert effect List.mem_cons_self
    have later := ih fun other member => inert other (List.mem_cons_of_mem _ member)
    cases effect <;> first | exact later | cases here

def Call.Consecutive : Call → Prop
  | .onMessageAt message _ =>
    ∀ request, message.kind = .appendReq request → ∃ start, Numbered start request.entries
  | _ => True

namespace RaftNode
variable {node next : RaftNode} {effects : List RaftEffect} {message : Message}

theorem mirror_applyCommitted (node : RaftNode) (log : List Entry) : mirror log node.applyCommitted.2 = log := by
  unfold applyCommitted
  dsimp only
  split <;> rfl

theorem Moves.mirror {steady : Prop} (moves : Moves steady node effects next) :
    mirror node.log effects = next.log := by
  induction moves with
  | idle same inert => rw [mirror_inert _ inert, same.log]
  | push index same => rw [same.log]; rfl
  | commit raises within => exact mirror_applyCommitted _ _
  | trans one two ih ih' => rw [mirror_append, ih, ih']

/-- The loop finds nothing to refuse or in conflict once it has `changed` the log. -/
def intactLoop (message : Message) : List Entry → RaftNode → Bool → Bool
  | [], _, _ => true
  | entry :: rest, node, changed =>
    match node.entryAt entry.index with
    | some existing =>
      if existing.term = entry.term then intactLoop message rest node changed
      else if changed then false
      else if entry.index ≤ node.commitIndex then true
      else
        let truncated := node.truncateSuffix entry.index
        if entry.index ≠ truncated.lastIndex + 1 then true
        else
          match truncated.pushEntry message entry [] with
          | .error _ => false
          | .ok pushed => intactLoop message rest pushed true
    | none =>
      match node.pushEntry message entry [] with
      | .error _ => !changed
      | .ok pushed => intactLoop message rest pushed true

theorem pushEntry_ok_iff {entry : Entry} (effects : List RaftEffect) :
    node.pushEntry message entry effects = .ok next ↔ node.pushEntry message entry [] = .ok next := by
  unfold pushEntry
  split
  · simp
  · split
    · split <;> simp
    · simp

theorem pushEntry_refused {entry : Entry} {out : List RaftEffect} (contiguous : entry.index = node.lastIndex + 1)
    (failed : node.pushEntry message entry effects = .error out) :
    out = [.trace "invalid_config_rejected" entry.index] := by
  unfold pushEntry at failed
  rw [if_neg (by simpa using contiguous)] at failed
  split at failed
  · split at failed
    · exact (Except.error.inj failed).symm
    · cases failed
  · cases failed

theorem pushEntry_error {entry : Entry} {out : List RaftEffect} (log : List Entry)
    (failed : node.pushEntry message entry effects = .error out) :
    mirror log out = if entry.index ≠ node.lastIndex + 1 then mirror log effects else log := by
  unfold pushEntry at failed
  split at failed
  next gap =>
    obtain rfl := Except.error.inj failed
    rw [if_pos gap, mirror_append]
    rfl
  next contiguous =>
    rw [if_neg contiguous]
    split at failed
    · split at failed
      · obtain rfl := Except.error.inj failed
        rfl
      · cases failed
    · cases failed

def Owes (log : List Entry) (next : RaftNode) :
    Except (List RaftEffect) (List RaftEffect × List Entry) → Prop
  | .error out => mirror log out = next.log
  | .ok (out, appended) => mirror log out ++ appended = next.log

theorem appendLoop_pushing {log : List Entry} {rest appended : List Entry}
    {outcome : Except (List RaftEffect) (List RaftEffect × List Entry)} (intact : intactLoop message rest node true)
    (owed : CrashCourse.Raft.mirror log effects ++ appended = node.log)
    (done : appendLoop message rest node effects appended = (next, outcome)) : Owes log next outcome := by
  induction rest generalizing node appended with
  | nil =>
    rw [appendLoop] at done
    obtain ⟨rfl, rfl⟩ := Prod.mk.inj done
    exact owed
  | cons entry rest ih =>
    rw [appendLoop] at done
    rw [intactLoop] at intact
    cases found : node.entryAt entry.index with
    | some existing =>
      simp only [found] at done intact
      by_cases same : existing.term = entry.term
      · rw [if_pos same] at done intact
        exact ih intact owed done
      · simp [same] at intact
    | none =>
      simp only [found] at done intact
      cases tried : node.pushEntry message entry [] with
      | error out => simp [tried] at intact
      | ok pushed =>
        rw [tried] at intact
        rw [(pushEntry_ok_iff effects).mpr tried] at done
        refine ih intact ?_ done
        rw [(pushEntry_ok tried).2.1, ← owed, List.append_assoc]

theorem appendLoop_mirror {rest : List Entry} {outcome : Except (List RaftEffect) (List RaftEffect × List Entry)}
    (intact : intactLoop message rest node false)
    (done : appendLoop message rest node [] [] = (next, outcome)) : Owes node.log next outcome := by
  induction rest with
  | nil =>
    rw [appendLoop] at done
    obtain ⟨rfl, rfl⟩ := Prod.mk.inj done
    exact List.append_nil _
  | cons entry rest ih =>
    rw [appendLoop] at done
    rw [intactLoop] at intact
    cases found : node.entryAt entry.index with
    | some existing =>
      simp only [found] at done intact
      by_cases same : existing.term = entry.term
      · rw [if_pos same] at done intact
        exact ih intact done
      rw [if_neg same] at done intact
      rw [if_neg Bool.false_ne_true] at intact
      by_cases committed : entry.index ≤ node.commitIndex
      · rw [if_pos committed] at done
        obtain ⟨rfl, rfl⟩ := Prod.mk.inj done
        rfl
      · rw [if_neg committed] at done intact
        have cut := (truncateSuffix_log node entry.index).1
        by_cases gap : entry.index ≠ (node.truncateSuffix entry.index).lastIndex + 1
        · split at done
          next out failed =>
            obtain ⟨rfl, rfl⟩ := Prod.mk.inj done
            have written := pushEntry_error node.log failed
            rw [if_pos gap] at written
            exact written.trans cut.symm
          next pushed pushes => exact absurd (pushEntry_ok pushes).1 gap
        · rw [if_neg gap] at intact
          cases tried : (node.truncateSuffix entry.index).pushEntry message entry [] with
          | error out => simp [tried] at intact
          | ok pushed =>
            rw [tried] at intact
            rw [(pushEntry_ok_iff _).mpr tried] at done
            refine appendLoop_pushing intact ?_ done
            rw [(pushEntry_ok tried).2.1, cut]
            rfl
    | none =>
      simp only [found] at done intact
      cases tried : node.pushEntry message entry [] with
      | error out =>
        rw [tried] at done
        obtain ⟨rfl, rfl⟩ := Prod.mk.inj done
        have written := pushEntry_error node.log tried
        split at written <;> exact written
      | ok pushed =>
        rw [tried] at done intact
        refine appendLoop_pushing intact ?_ done
        rw [(pushEntry_ok tried).2.1]
        rfl

section Behind
variable (numbered : Numbered node.snapshotIndex node.log)
include numbered

theorem lastIndex_numbered : node.lastIndex = node.snapshotIndex + node.log.length := by
  unfold lastIndex
  cases last : node.log.getLast? with
  | none =>
    have none : node.log = [] := by simpa using last
    simp [none]
  | some entry => exact numbered.getLast_index last

theorem entryAt_next : node.entryAt (node.lastIndex + 1) = none := by
  have found := numbered.find_index node.log.length
  rw [lastIndex_numbered numbered]
  simpa [entryAt] using found

theorem pushEntry_numbered {pushed : RaftNode} {entry : Entry}
    (pushes : node.pushEntry message entry effects = .ok pushed) :
    Numbered pushed.snapshotIndex pushed.log ∧ pushed.lastIndex = entry.index := by
  obtain ⟨index, log, base⟩ := pushEntry_ok pushes
  have longer : Numbered pushed.snapshotIndex pushed.log := by
    rw [base, log]
    exact numbered.append (by rw [index, lastIndex_numbered numbered])
  refine ⟨longer, ?_⟩
  rw [lastIndex_numbered longer, base, log, index, lastIndex_numbered numbered]
  simp
  omega

/-- Once an entry is pushed, the next refusal loses it: the copy does not have it. -/
theorem appendLoop_behind {log rest appended : List Entry}
    {outcome : Except (List RaftEffect) (List RaftEffect × List Entry)} (consecutive : Numbered node.lastIndex rest)
    (ahead : ∃ (position : Nat) (entry : Entry),
      node.log[position]? = some entry ∧ log[position]? ≠ some entry)
    (broken : intactLoop message rest node true = false)
    (done : appendLoop message rest node effects appended = (next, outcome)) :
    ∃ out, outcome = .error out ∧ CrashCourse.Raft.mirror log out ≠ next.log := by
  induction rest generalizing node appended with
  | nil => cases broken
  | cons entry rest ih =>
    have missing := entryAt_next numbered
    rw [← consecutive.1] at missing
    rw [appendLoop] at done
    rw [intactLoop] at broken
    simp only [missing] at done broken
    cases tried : node.pushEntry message entry effects with
    | error out =>
      rw [tried] at done
      obtain ⟨rfl, rfl⟩ := Prod.mk.inj done
      refine ⟨out, rfl, ?_⟩
      rw [pushEntry_refused consecutive.1 tried]
      obtain ⟨position, held, here, lacks⟩ := ahead
      intro same
      exact lacks ((congrArg (·[position]?) same).trans here)
    | ok pushed =>
      rw [tried] at done
      rw [(pushEntry_ok_iff effects).mp tried] at broken
      obtain ⟨longer, last⟩ := pushEntry_numbered numbered tried
      refine ih longer ?_ ?_ broken done
      · rw [last, consecutive.1]
        exact consecutive.2
      · obtain ⟨position, held, here, lacks⟩ := ahead
        refine ⟨position, held, ?_, lacks⟩
        rw [(pushEntry_ok tried).2.1, List.getElem?_append_left
          (List.getElem?_eq_some_iff.mp here).1]
        exact here

/-- On a contiguous log and a consecutive request, a loop that is not intact leaves
the copy behind. -/
theorem appendLoop_unmirrored {start : Nat} {rest : List Entry}
    {outcome : Except (List RaftEffect) (List RaftEffect × List Entry)}
    (consecutive : Numbered start rest) (broken : intactLoop message rest node false = false)
    (done : appendLoop message rest node [] [] = (next, outcome)) :
    ∃ out, outcome = .error out ∧ CrashCourse.Raft.mirror node.log out ≠ next.log := by
  induction rest generalizing start with
  | nil => cases broken
  | cons entry rest ih =>
    rw [appendLoop] at done
    rw [intactLoop] at broken
    cases found : node.entryAt entry.index with
    | some existing =>
      simp only [found] at done broken
      by_cases same : existing.term = entry.term
      · rw [if_pos same] at done broken
        exact ih consecutive.2 broken done
      rw [if_neg same] at done broken
      rw [if_neg Bool.false_ne_true] at broken
      by_cases committed : entry.index ≤ node.commitIndex
      · simp [committed] at broken
      rw [if_neg committed] at done broken
      by_cases gap : entry.index ≠ (node.truncateSuffix entry.index).lastIndex + 1
      · simp [gap] at broken
      rw [if_neg gap] at broken
      obtain ⟨kept, place, held, cut, base⟩ := truncateSuffix_found numbered found
      have within := (List.getElem?_eq_some_iff.mp held).1
      have cutNumbered : Numbered (node.truncateSuffix entry.index).snapshotIndex
          (node.truncateSuffix entry.index).log := by
        rw [base, cut]
        exact numbered.take _
      cases tried : (node.truncateSuffix entry.index).pushEntry message entry
          ([] ++ [.truncateSuffix entry.index]) with
      | error out =>
        rw [tried] at done
        obtain ⟨rfl, rfl⟩ := Prod.mk.inj done
        refine ⟨out, rfl, ?_⟩
        rw [pushEntry_refused (not_not.mp gap) tried, cut]
        intro same
        have lengths := congrArg List.length same
        simp only [CrashCourse.Raft.mirror, List.length_take] at lengths
        omega
      | ok pushed =>
        rw [tried] at done
        rw [(pushEntry_ok_iff _).mp tried] at broken
        obtain ⟨longer, last⟩ := pushEntry_numbered cutNumbered tried
        refine appendLoop_behind longer ?_ ?_ broken done
        · rw [last, consecutive.1]
          exact consecutive.2
        · refine ⟨kept, entry, ?_, ?_⟩
          · rw [(pushEntry_ok tried).2.1, cut]
            simp [within.le]
          · rw [held]
            intro equal
            exact same (congrArg Entry.term (Option.some.inj equal))
    | none =>
      simp only [found] at done broken
      cases tried : node.pushEntry message entry [] with
      | error out => simp [tried] at broken
      | ok pushed =>
        rw [tried] at done broken
        obtain ⟨longer, last⟩ := pushEntry_numbered numbered tried
        refine appendLoop_behind longer ?_ ?_ broken done
        · rw [last, consecutive.1]
          exact consecutive.2
        · refine ⟨node.log.length, entry, ?_, by simp⟩
          rw [(pushEntry_ok tried).2.1]
          simp

end Behind

def heeding (node : RaftNode) (message : Message) (now : Nat) : RaftNode :=
  resetElection { node with role := node.memberRole, leaderId := some message.sender } now

theorem heeding_track (node : RaftNode) (message : Message) (now : Nat) :
    node.SameTrack (node.heeding message now) := { SameTrack.refl node with sameRole := False.elim }

def intactRequest (node : RaftNode) (message : Message) (request : AppendRequest) (now : Nat) :
    Bool :=
  decide (message.term < node.hardState.term)
    || (node.heeding message now).termAt request.prevIndex != some request.prevTerm
    || intactLoop message request.entries (node.heeding message now) false

def keepsMirror (node : RaftNode) : Call → Bool
  | .onMessageAt message now =>
    match message.kind with
    | .appendReq request =>
      !supportsProtocolVersion message.protoVersion
        || (node.observeTerm message).1.intactRequest message request now
    | _ => true
  | _ => true

theorem acknowledgeAppend_mirror (node : RaftNode) (message : Message) (request : AppendRequest)
    (effects : List RaftEffect) (appended log : List Entry) :
    mirror log (node.acknowledgeAppend message request effects appended).2 =
        mirror log effects ++ appended ∧
      (node.acknowledgeAppend message request effects appended).1.log = node.log := by
  have written : mirror log
      (if appended.isEmpty then effects else effects ++ [.persistEntries appended]) =
        mirror log effects ++ appended := by
    cases appended with
    | nil => simp
    | cons entry rest => simp [mirror_append, mirror]
  unfold acknowledgeAppend
  dsimp only
  constructor
  · rw [mirror_append, mirror_append, written]
    split
    · rw [mirror_applyCommitted]
      rfl
    · rfl
  · split
    · rfl
    · rfl

theorem appendRequest_cases (node : RaftNode) (message : Message) (request : AppendRequest) (now : Nat) :
    (∃ effect, effect.inert ∧ node.SameTrack (node.appendRequest message request now).1 ∧
      (node.appendRequest message request now).2 = [effect] ∧
      node.intactRequest message request now) ∨ (∃ next outcome,
      appendLoop message request.entries (node.heeding message now) [] [] = (next, outcome) ∧
      node.intactRequest message request now =
        intactLoop message request.entries (node.heeding message now) false ∧
      node.appendRequest message request now =
        match (next, outcome) with
        | (next, .error out) => (next, out)
        | (next, .ok (out, appended)) => next.acknowledgeAppend message request out appended) := by
  unfold appendRequest intactRequest
  by_cases stale : message.term < node.hardState.term
  · left
    rw [if_pos stale]
    exact ⟨_, rfl, .refl node, rfl, by simp [stale]⟩
  · rw [if_neg stale]
    by_cases behind : (node.heeding message now).termAt request.prevIndex ≠ some request.prevTerm
    · left
      rw [heeding] at behind
      dsimp only
      rw [if_pos behind]
      refine ⟨_, rfl, heeding_track node message now, rfl, ?_⟩
      rw [heeding]
      simp [behind]
    · right
      refine ⟨_, _, rfl, ?_, ?_⟩
      · simp [stale, not_not.mp behind]
      · rw [heeding] at behind
        dsimp only
        rw [if_neg behind]
        rfl

theorem appendRequest_mirror {request : AppendRequest} {now : Nat} (intact : node.intactRequest message request now) :
    mirror node.log (node.appendRequest message request now).2 =
      (node.appendRequest message request now).1.log := by
  rcases appendRequest_cases node message request now with
    ⟨effect, inert, same, only, -⟩ | ⟨next, outcome, done, whole, result⟩
  · rw [only, same.log]
    exact mirror_inert _ (by simpa using inert)
  have owes := appendLoop_mirror (whole ▸ intact) done
  rw [(heeding_track node message now).log] at owes
  cases outcome with
  | error out =>
    rw [result]
    exact owes
  | ok written =>
    obtain ⟨out, appended⟩ := written
    rw [result]
    have kept := next.acknowledgeAppend_mirror message request out appended node.log
    exact kept.1.trans (owes.trans kept.2.symm)

theorem appendRequest_unmirrored {request : AppendRequest} {now start : Nat}
    (numbered : Numbered node.snapshotIndex node.log) (consecutive : Numbered start request.entries)
    (broken : node.intactRequest message request now = false) :
    mirror node.log (node.appendRequest message request now).2 ≠
      (node.appendRequest message request now).1.log := by
  rcases appendRequest_cases node message request now with
    ⟨effect, inert, same, only, intact⟩ | ⟨next, outcome, done, whole, result⟩
  · rw [intact] at broken
    cases broken
  have track := heeding_track node message now
  have still : Numbered (node.heeding message now).snapshotIndex (node.heeding message now).log := by
    rw [track.snapshotIndex, track.log]
    exact numbered
  obtain ⟨out, rfl, lost⟩ := appendLoop_unmirrored still consecutive (whole ▸ broken) done
  rw [track.log] at lost
  rw [result]
  exact lost

theorem appendResponse_dropped {response : AppendResponse} (now : Nat) (dropped : node.dropsAnswer message response) :
    node.appendResponse message response now =
      (((({ node with lastContact := node.lastContact.insert message.sender now } : RaftNode).recordMatch
        message.sender response).advanceCommit.1.countReadAck message.sender response).1, []) := by
  simp only [dropsAnswer, Bool.and_eq_true, decide_eq_true_eq, beq_iff_eq, Option.any_eq_true] at dropped
  obtain ⟨⟨⟨leads, current⟩, success⟩, retiring, held, matched, uncommitted⟩ := dropped
  have listed : node.retiringPeers.contains message.sender := by
    rw [← Std.ExtTreeMap.isSome_getElem?_eq_contains, held]
    rfl
  unfold appendResponse
  rw [if_neg (by simp [leads, current, listed]), if_pos success]
  simp only [held, Option.filter_some, matched, decide_true, if_true, uncommitted]
  unfold appendResponseFromPeer
  rw [if_pos success]

theorem advanceCommit_log (node : RaftNode) : node.advanceCommit.1.log = node.log := by
  unfold advanceCommit
  split <;> rfl

theorem appendResponse_mirror (node : RaftNode) (message : Message) (response : AppendResponse) (now : Nat) :
    mirror node.log (node.appendResponse message response now).2 =
      (node.appendResponse message response now).1.log := by
  cases dropped : node.dropsAnswer message response with
  | false => exact (node.appendResponse_moves message response now dropped).mirror
  | true =>
    rw [appendResponse_dropped now dropped]
    dsimp only [CrashCourse.Raft.mirror]
    rw [(countReadAck_idle _ _ _).1.log, advanceCommit_log]
    rfl

theorem onMessageAt_mirror_iff (now : Nat) (supported : supportsProtocolVersion message.protoVersion) :
    (mirror node.log (node.onMessageAt message now).2 = (node.onMessageAt message now).1.log ↔
      mirror (node.observeTerm message).1.log ((node.observeTerm message).1.dispatch message now).2 =
        ((node.observeTerm message).1.dispatch message now).1.log) := by
  have observed := (node.observeTerm_idle message).mirror
  unfold onMessageAt
  rw [if_neg (by simp [supported])]
  dsimp only
  rw [mirror_append, observed]

theorem plainCall_cases {call : Call} (plain : node.plainCall call = false) :
    ∃ message now, call = .onMessageAt message now ∧
      ((∃ request, message.kind = .appendReq request) ∨
        ∃ response, message.kind = .appendResp response) := by
  cases call with
  | onMessageAt message now =>
    refine ⟨message, now, rfl, ?_⟩
    unfold plainCall plainMessage at plain
    cases shape : message.kind with
    | appendReq request => exact .inl ⟨request, rfl⟩
    | appendResp response => exact .inr ⟨response, rfl⟩
    | _ => simp [shape] at plain
  | _ => cases plain

theorem call_mirror {call : Call} (keeps : node.keepsMirror call) :
    mirror node.log (node.call call).2 = (node.call call).1.log := by
  cases plain : node.plainCall call with
  | true =>
    cases active : node.activates call with
    | true =>
      rw [call_activates node call active]
      rfl
    | false => exact (node.call_moves call plain active).mirror
  | false =>
    obtain ⟨message, now, rfl, shape⟩ := plainCall_cases plain
    change mirror node.log (node.onMessageAt message now).2 = (node.onMessageAt message now).1.log
    cases supported : supportsProtocolVersion message.protoVersion with
    | false =>
      unfold onMessageAt
      rw [if_pos (by simp [supported])]
      rfl
    | true =>
      rw [onMessageAt_mirror_iff now supported]
      rcases shape with ⟨request, shape⟩ | ⟨response, shape⟩
      · simp only [keepsMirror, shape, supported, Bool.not_true, Bool.false_or] at keeps
        simp only [dispatch, shape]
        exact appendRequest_mirror keeps
      · simp only [dispatch, shape]
        exact appendResponse_mirror _ message response now

theorem call_unmirrored {call : Call} (numbered : Numbered node.snapshotIndex node.log)
    (consecutive : call.Consecutive) (broken : node.keepsMirror call = false) :
    mirror node.log (node.call call).2 ≠ (node.call call).1.log := by
  cases call with
  | onMessageAt message now =>
    change mirror node.log (node.onMessageAt message now).2 ≠ (node.onMessageAt message now).1.log
    unfold keepsMirror at broken
    cases shape : message.kind with
    | appendReq request =>
      simp only [shape, Bool.or_eq_false_iff] at broken
      obtain ⟨supported, broken⟩ := broken
      obtain ⟨start, follows⟩ := consecutive request shape
      rw [Ne, onMessageAt_mirror_iff now (by simpa using supported)]
      simp only [dispatch, shape]
      have track := node.observeTerm_track message
      exact appendRequest_unmirrored (by rwa [track.snapshotIndex, track.log]) follows broken
    | _ => simp [shape] at broken
  | _ => cases broken

end RaftNode

/-- Every call that keeps the mirror leaves the durable copy equal to the log, in any
state. On a contiguous log and a consecutive request a call that does not keep it
leaves them apart. -/
theorem effects_mirror_log (node : RaftNode) (call : Call) :
    (node.keepsMirror call → mirror node.log (node.call call).2 = (node.call call).1.log) ∧
      (Numbered node.snapshotIndex node.log → call.Consecutive →
        (mirror node.log (node.call call).2 = (node.call call).1.log ↔ node.keepsMirror call)) := by
  refine ⟨RaftNode.call_mirror, fun numbered consecutive => ⟨fun same => ?_, RaftNode.call_mirror⟩⟩
  cases keeps : node.keepsMirror call with
  | true => rfl
  | false => exact absurd same (RaftNode.call_unmirrored numbered consecutive keeps)

def blankFollower : RaftNode := RaftNode.new 2 (Std.ExtTreeSet.ofList [1, 2] compare) 2 .default

def firstAppend (entries : List Entry) : Call :=
  .onMessageAt ⟨2, 1, 2, 1, .appendReq ⟨0, 0, entries, 0, 0⟩⟩ 0

theorem effects_mirror_log_blankFollower :
    mirror [] (blankFollower.call (firstAppend [⟨1, 1, .noop, []⟩, ⟨1, 2, .app, [7]⟩])).2 =
        (blankFollower.call (firstAppend [⟨1, 1, .noop, []⟩, ⟨1, 2, .app, [7]⟩])).1.log ∧
      (blankFollower.call (firstAppend [⟨1, 1, .noop, []⟩, ⟨1, 2, .app, [7]⟩])).1.log.length = 2 := by
  refine ⟨((effects_mirror_log blankFollower _).2 trivial ?_).mpr ?_, ?_⟩
  · rintro request ⟨⟩
    exact ⟨0, by decide⟩
  · decide +kernel
  · decide +kernel

/-- The second entry of the request does not decode. The first one stays in the log
but is never persisted, and the next heartbeat is answered with a match on it. -/
theorem rejected_config_loses_entry :
    (blankFollower.call (firstAppend [⟨1, 1, .noop, []⟩, ⟨1, 2, .config, []⟩])).1.log =
        [⟨1, 1, .noop, []⟩] ∧
      mirror blankFollower.log
        (blankFollower.call (firstAppend [⟨1, 1, .noop, []⟩, ⟨1, 2, .config, []⟩])).2 = [] ∧
      ((blankFollower.call (firstAppend [⟨1, 1, .noop, []⟩, ⟨1, 2, .config, []⟩])).1.call
        (.onMessageAt ⟨2, 1, 2, 1, .appendReq ⟨1, 1, [], 0, 0⟩⟩ 0)).2 =
          [.send ⟨2, 2, 1, 1, .appendResp ⟨true, 1, none, 0, 0⟩⟩] := by
  decide +kernel

end CrashCourse.Raft
