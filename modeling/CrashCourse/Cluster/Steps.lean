import CrashCourse.Cluster.Gating
import CrashCourse.Raft.Office
import CrashCourse.Raft.Refusals

/-!
An event of a node in small steps: one head step, whose effects are then worked off one at
a time until a write stops the node.
-/

namespace CrashCourse.Cluster
open CrashCourse.Core CrashCourse.KeyValue CrashCourse.Raft
theorem of_error {ε α : Type} {error : ε} {holds : α → Prop} :
    ∀ value, (.error error : Except ε α) = .ok value → holds value := by
  rintro _ ⟨⟩

namespace Node
variable {node next : Node} {effects : List RaftEffect} {out : List NodeEffect}

structure SameBooks (before after : Node) : Prop where
  raft : after.raft = before.raft
  kv : after.kv = before.kv
  sessions : after.sessions = before.sessions
  config : after.config = before.config
  client : after.routes.client = before.routes.client
  sessionReservations : after.sessionReservations = before.sessionReservations
  logicalReservations : after.logicalReservations = before.logicalReservations
  continuation : after.continuation = before.continuation

theorem SameBooks.refl (node : Node) : SameBooks node node := ⟨rfl, rfl, rfl, rfl, rfl, rfl, rfl, rfl⟩

theorem SameBooks.trans {middle : Node} (one : SameBooks node middle) (two : SameBooks middle next) :
    SameBooks node next :=
  ⟨two.raft.trans one.raft, two.kv.trans one.kv, two.sessions.trans one.sessions,
    two.config.trans one.config, two.client.trans one.client,
    two.sessionReservations.trans one.sessionReservations,
    two.logicalReservations.trans one.logicalReservations, two.continuation.trans one.continuation⟩

/-- A command the node has taken: whom to answer, the entry it appended, what it reserved. -/
structure Ticket where
  client : ClientId
  request : Nat
  entry : Entry
  reservation : SessionReservation
  positiveDelta : Nat
  deriving DecidableEq

def entryFor (node : Node) (command : KvCommand) (envelope : Bytes) : Entry where
  term := node.raft.hardState.term
  index := node.raft.lastIndex + 1
  kind := if KvCommand.isBatch command then .appV3 else .app
  payload := envelope

def ticketFor (node : Node) (client : ClientId) (request : Nat) (session : Option (SessionKey × Nat))
    (command : Bytes) (leaderTime : Nat) : Option Ticket :=
  match node.checkSubmit session command leaderTime with
  | .error _ => none
  | .ok admission =>
    let envelope := AppEnvelope.encode { session, leaderTime, command }
    match (node.proposeCommand admission.command envelope).2 with
    | .error _ => none
    | .ok _ => some
        { client, request
          entry := node.entryFor admission.command envelope
          reservation := admission.reservation
          positiveDelta := admission.positiveDelta }

def admitted (node : Node) : Event → Option Ticket
  | .input (.clientRequest client sequence command leaderTime) =>
    if node.continuation.isSome then none
    else match SessionKey.new SessionNamespace.userRequest.code client with
      | .error _ => none
      | .ok key => node.ticketFor client sequence (some (key, sequence)) (encodeCommand command) leaderTime
  | .input (.clientBytes client request session command leaderTime) =>
    if node.continuation.isSome then none
    else node.ticketFor client request session command leaderTime
  | _ => none

structure Answer where
  client : ClientId
  request : Nat
  reply : KvReply
  deriving DecidableEq

def answer? : NodeEffect → Option Answer
  | .clientReply client request reply => some ⟨client, request, reply⟩
  | _ => none

def clientAnswers (out : List NodeEffect) : List Answer := out.filterMap answer?

def preparedAnswer (prepared : PreparedCommittedEntry) : Option Answer :=
  match prepared.reply with
  | some (.kv client request reply) => some ⟨client, request, reply⟩
  | _ => none

inductive Label where
  | quiet
  | admitted (ticket : Ticket)
  | published (answer : Option Answer)

def Label.answers : Label → List Answer
  | .published (some answer) => [answer]
  | _ => []

def Label.ticket : Label → Option Ticket
  | .admitted ticket => some ticket
  | _ => none

def Event.heard : Event → Option (Message × Nat)
  | .input (.message message) => some (message, 0)
  | .input (.messageAt now message) => some (message, now)
  | _ => none

inductive Head (node : Node) (event : Event) : Label → Node → List RaftEffect → Prop
  | rest {next : Node} (same : SameBooks node next) : Head node event .quiet next []
  | call {next : Node} (call : Call) (idle : node.continuation = none)
      (source : ∀ message now, call = .onMessageAt message now → event.heard = some (message, now))
      (same : SameBooks (dropRoutes { node with raft := (node.raft.call call).1 }) next) :
      Head node event .quiet next (node.raft.call call).2
  | submit {raft : RaftNode} {effects : List RaftEffect} {command : KvCommand} {envelope : Bytes}
      {admission : Admission} (client : ClientId) (request : Nat) (idle : node.continuation = none)
      (leads : node.raft.role = .leader)
      (proposed : node.proposeCommand command envelope = (raft, .ok effects)) :
      Head node event
        (.admitted ⟨client, request, node.entryFor command envelope, admission.reservation,
          admission.positiveDelta⟩)
        (dropRoutes (({ node with raft } : Node).reserve (client, request) admission)) effects
  | resume {effects : List RaftEffect} (held : node.continuation = some (.raft effects)) :
      Head node event .quiet (dropRoutes { node with continuation := none }) effects
  | publish {current following : PreparedCommittedEntry} {pending : List PreparedCommittedEntry}
      {deferred remaining : List RaftEffect} (durable : event = .input (.persisted true))
      (held : node.continuation = some (.store ⟨current, following :: pending, deferred, remaining⟩)) :
      Head node event (.published (preparedAnswer current))
        ((({ node with continuation := none } : Node).publishEntry current).await
          (.store ⟨following, pending, deferred ++ current.postEffects, remaining⟩)).settle []
  | finish {current : PreparedCommittedEntry} {deferred remaining : List RaftEffect}
      (durable : event = .input (.persisted true))
      (held : node.continuation = some (.store ⟨current, [], deferred, remaining⟩)) :
      Head node event (.published (preparedAnswer current))
        (dropRoutes (({ node with continuation := none } : Node).publishEntry current))
        (deferred ++ current.postEffects ++ remaining)
  | drop : Head node event .quiet { node with continuation := none } []

def passes : RaftEffect → Bool
  | .apply _ | .truncateSuffix _ => false
  | _ => true

/-- One effect in hand is worked off, or the rest of them is laid aside. -/
inductive Tail : Node × List RaftEffect → Node × List RaftEffect → Prop
  | quiet {node next : Node} {effects : List RaftEffect} (same : SameBooks node next) :
      Tail (node, effects) (next, effects)
  | pass {node : Node} {effect : RaftEffect} {rest : List RaftEffect} (passed : passes effect) :
      Tail (node, effect :: rest) (node, rest)
  | ask {node : Node} {effects : List RaftEffect} (idle : node.continuation = none) :
      Tail (node, effects) ({ node with raft := node.raft.requestRead.1 }, effects)
  | cut {node : Node} {index : Nat} {rest : List RaftEffect} :
      Tail (node, .truncateSuffix index :: rest) (node.forgetSuffix index, rest)
  | skip {node : Node} {entries : List Entry} {rest : List RaftEffect} {routes : ReplyRoutes}
      (idle : node.continuation = none)
      (prepared : prepareCommittedEntries node.config.policy node.routes node.working entries =
        (routes, .ok [])) :
      Tail (node, .apply entries :: rest) ({ node with routes }, rest)
  | hand {node : Node} {entries : List Entry} {rest : List RaftEffect} {routes : ReplyRoutes}
      {current : PreparedCommittedEntry} {pending : List PreparedCommittedEntry}
      (prepared : prepareCommittedEntries node.config.policy node.routes node.working entries =
        (routes, .ok (current :: pending))) :
      Tail (node, .apply entries :: rest)
        (({ node with routes } : Node).await (.store ⟨current, pending, [], rest⟩), [])
  | wait {node : Node} {effects : List RaftEffect} : Tail (node, effects) (node.await (.raft effects), [])
  | lose {node : Node} {effects : List RaftEffect} {routes : ReplyRoutes}
      (fewer : ∀ (index : Nat) (route : ClientId × Nat), routes.client[index]? = some route →
        node.routes.client[index]? = some route) :
      Tail (node, effects) ({ node with routes }, [])
  | sweep {node : Node} {raft : RaftNode} {effects : List RaftEffect} (payload : Bytes)
      (idle : node.continuation = none)
      (proposed : node.raft.propose payload = (raft, .ok effects)) :
      Tail (node, []) ({ node with raft }, effects)
  | settle {node : Node} : Tail (node, []) (node.settle, [])

abbrev Tails := Relation.ReflTransGen Tail

theorem clientAnswers_append (first second : List NodeEffect) :
    clientAnswers (first ++ second) = clientAnswers first ++ clientAnswers second :=
  List.filterMap_append ..

theorem clientAnswers_servesRead (serves : ∀ released ∈ out, released.servesRead) : clientAnswers out = [] := by
  apply List.filterMap_eq_nil_iff.mpr
  intro released member
  have serving := serves released member
  cases released <;> first | rfl | cases serving

theorem finishFollowerReadRound_books (node : Node) (index : Nat) :
    SameBooks node (node.finishFollowerReadRound index).1 := by
  unfold finishFollowerReadRound
  split <;> exact ⟨rfl, rfl, rfl, rfl, rfl, rfl, rfl, rfl⟩

theorem acceptFollowerReadGrant_books (node : Node) (sender : NodeId)
    (term requestId commandHash readIndex readTime : Nat) :
    SameBooks node (node.acceptFollowerReadGrant sender term requestId commandHash readIndex readTime) := by
  unfold acceptFollowerReadGrant
  split
  · exact .refl node
  · split <;> exact ⟨rfl, rfl, rfl, rfl, rfl, rfl, rfl, rfl⟩

theorem drain_books (node : Node) : SameBooks node node.drain.1 := by
  unfold drain drainPendingReads drainPendingFollowerReads
  cases node.readBarrierReady <;> exact ⟨rfl, rfl, rfl, rfl, rfl, rfl, rfl, rfl⟩

theorem dropRoutes_leader (leads : node.raft.role = .leader) : node.dropRoutes = node := if_pos leads

theorem mapLoop_books {accept : AcceptRead} (asks : ∀ effect ∈ effects, asksRead effect)
    (output : List NodeEffect) : SameBooks node (mapLoop accept node effects output).1 := by
  induction effects generalizing node output with
  | nil => exact .refl node
  | cons effect rest ih =>
    have later : ∀ other ∈ rest, asksRead other :=
      fun other member => asks other (List.mem_cons_of_mem _ member)
    have here := asks effect List.mem_cons_self
    cases effect with
    | send message | readBarrier index => exact ih later _
    | readBarrierReady index =>
      have ready : SameBooks node { node with readBarrierReady := some index } :=
        ⟨rfl, rfl, rfl, rfl, rfl, rfl, rfl, rfl⟩
      exact (ready.trans (finishFollowerReadRound_books _ index)).trans (ih later _)
    | _ => cases here

/-- Serving a follower's read adds a read barrier at most, and answers no client. -/
def Unobtrusive (accept : AcceptRead) : Prop :=
  ∀ node sender requestId commandHash at_,
    (node.continuation = none → ∀ effects,
      Tails (node, effects) ((accept node sender requestId commandHash at_).1, effects)) ∧
    (accept node sender requestId commandHash at_).1.continuation = node.continuation ∧
    ∀ out, (accept node sender requestId commandHash at_).2 = .ok out → clientAnswers out = []

theorem requestRead_leads {raft after : RaftNode} (asked : raft.requestRead = (after, .ok effects)) :
    after.role = .leader := by
  simp only [RaftNode.requestRead] at asked
  split_ifs at asked with away <;> cases asked
  · exact not_not.mp away
  · exact not_not.mp away

theorem requestRead_refused {raft after : RaftNode} {error : RaftError}
    (asked : raft.requestRead = (after, .error error)) : after = raft := by
  simp only [RaftNode.requestRead] at asked
  split_ifs at asked <;> cases asked <;> rfl

theorem mapBarrier_books (leads : node.raft.role = .leader) (asks : ∀ effect ∈ effects, asksRead effect) :
    SameBooks node (node.mapBarrier effects).1 := by
  have looped := @mapLoop_books node effects (fun node _ _ _ _ => (node, .ok [])) asks []
  unfold mapBarrier mapEffectsWith
  rw [dropRoutes_leader leads]
  generalize mapLoop _ node effects [] = attempt at looped
  obtain ⟨next, _ | out⟩ := attempt
  · exact looped
  · exact looped.trans next.drain_books

theorem acceptFollowerReadRequest_unobtrusive : Unobtrusive acceptFollowerReadRequest := by
  intro node sender requestId commandHash at_
  have silent (name : String) : ∀ out, (Except.ok [NodeEffect.trace name] : Fallible _) = .ok out →
      clientAnswers out = [] := by
    rintro _ ⟨⟩
    rfl
  have nothing : ∀ out, (Except.ok [] : Fallible (List NodeEffect)) = .ok out → clientAnswers out = [] := by
    rintro _ ⟨⟩
    rfl
  have quietly {next : Node} (same : SameBooks node next) (_ : node.continuation = none)
      (effects : List RaftEffect) : Tails (node, effects) (next, effects) := .single (.quiet same)
  simp only [acceptFollowerReadRequest]
  split_ifs
  · exact ⟨quietly (.refl node), rfl, silent _⟩
  · exact ⟨quietly (.refl node), rfl, nothing⟩
  · exact ⟨quietly ⟨rfl, rfl, rfl, rfl, rfl, rfl, rfl, rfl⟩, rfl, nothing⟩
  · split
    case h_1 raft asks asked =>
      -- the barrier finds the node leader, so no route is dropped on the way
      have leads := requestRead_leads asked
      have changed : raft = node.raft.requestRead.1 := by rw [asked]
      rcases mapBarrier_asksRead (requestRead_asksRead asked) with ⟨next, out, mapped, same, quiet⟩
      have books : SameBooks { node with raft } next := by
        have frame : SameBooks { node with raft }
            { node with
              raft
              pendingFollowerGrants := node.pendingFollowerGrants.insert (sender, requestId)
                { follower := sender, requestId, commandHash, requestTime := at_
                  term := node.raft.hardState.term }
              followerReadRoundActive := true } := ⟨rfl, rfl, rfl, rfl, rfl, rfl, rfl, rfl⟩
        have barrier := @mapBarrier_books
          { node with
            raft
            pendingFollowerGrants := node.pendingFollowerGrants.insert (sender, requestId)
              { follower := sender, requestId, commandHash, requestTime := at_
                term := node.raft.hardState.term }
            followerReadRoundActive := true } asks leads (requestRead_asksRead asked)
        rw [mapped] at barrier
        exact frame.trans barrier
      rw [mapped]
      refine ⟨?_, same, ?_⟩
      · intro idle effects
        refine .tail (.single (.ask idle)) ?_
        rw [changed] at books
        exact .quiet books
      · rintro _ ⟨⟩
        exact clientAnswers_servesRead quiet
    case h_2 raft error asked =>
      obtain rfl := requestRead_refused asked
      exact ⟨quietly ⟨rfl, rfl, rfl, rfl, rfl, rfl, rfl, rfl⟩, rfl, silent _⟩

theorem Tails.pass {effect : RaftEffect} {rest : List RaftEffect} {last : Node × List RaftEffect}
    (passed : passes effect) (tails : Tails (node, rest) last) : Tails (node, effect :: rest) last :=
  .head (.pass passed) tails

theorem prepareCommittedEntries_fewer {policy : ClusterPolicy} {routes left : ReplyRoutes} {working : Working}
    {entries : List Entry} {outcome : Fallible (List PreparedCommittedEntry)}
    (done : prepareCommittedEntries policy routes working entries = (left, outcome)) {index : Nat}
    {route : ClientId × Nat} (kept : left.client[index]? = some route) : routes.client[index]? = some route := by
  induction entries generalizing routes working outcome with
  | nil =>
    obtain ⟨rfl, -⟩ := Prod.mk.inj done
    exact kept
  | cons entry rest ih =>
    unfold prepareCommittedEntries at done
    split at done
    · obtain ⟨rfl, -⟩ := Prod.mk.inj done
      exact kept
    next carried _ =>
      dsimp only at done
      have fewer : ∀ {middle : ReplyRoutes}, middle = (if carried.clientReply.isSome then
          { routes with client := routes.client.erase entry.index } else routes) →
          middle.client[index]? = some route → routes.client[index]? = some route := by
        rintro _ rfl held
        split at held
        · rw [Std.ExtTreeMap.getElem?_erase] at held
          split at held
          · cases held
          · exact held
        · exact held
      split at done
      · obtain ⟨rfl, -⟩ := Prod.mk.inj done
        exact fewer rfl kept
      split at done
      next left' halt others =>
        obtain ⟨rfl, -⟩ := Prod.mk.inj done
        exact fewer rfl (ih others)
      next left' prepared others =>
        obtain ⟨rfl, -⟩ := Prod.mk.inj done
        exact fewer rfl (ih others)

theorem mapLoop_tails {accept : AcceptRead} (plain : Unobtrusive accept) (idle : node.continuation = none)
    (output : List NodeEffect) : Tails (node, effects) ((mapLoop accept node effects output).1, []) ∧
      ∀ out, (mapLoop accept node effects output).2 = .ok out → clientAnswers out = clientAnswers output := by
  induction effects generalizing node output with
  | nil =>
    refine ⟨.refl, ?_⟩
    rintro _ ⟨⟩
    rfl
  | cons effect rest ih =>
    have more {released : NodeEffect} (other : answer? released = none)
        (passed : passes effect)
        (same : mapLoop accept node (effect :: rest) output = mapLoop accept node rest (output ++ [released])) :
        Tails (node, effect :: rest) ((mapLoop accept node (effect :: rest) output).1, []) ∧
        ∀ out, (mapLoop accept node (effect :: rest) output).2 = .ok out →
          clientAnswers out = clientAnswers output := by
      rw [same]
      obtain ⟨tails, answers⟩ := ih idle (output ++ [released])
      refine ⟨tails.pass passed, fun out done => ?_⟩
      rw [answers out done, clientAnswers_append]
      simp [clientAnswers, other]
    have stop {released : NodeEffect} {laid : Node} (other : answer? released = none)
        (tails : Tails (node, effect :: rest) (laid, []))
        (same : mapLoop accept node (effect :: rest) output = (laid, .ok (output ++ [released]))) :
        Tails (node, effect :: rest) ((mapLoop accept node (effect :: rest) output).1, []) ∧
        ∀ out, (mapLoop accept node (effect :: rest) output).2 = .ok out →
          clientAnswers out = clientAnswers output := by
      rw [same]
      refine ⟨tails, ?_⟩
      rintro _ ⟨⟩
      rw [clientAnswers_append]
      simp [clientAnswers, other]
    cases effect with
    | send message
    | receiveSnapshotChunk message
    | receiveSnapshotAck message
    | armTimer id at_ kind
    | trace name index => exact more rfl rfl rfl
    | persistHard hard | persistEntries entries => exact stop rfl (Tails.pass rfl (.single .wait)) rfl
    | truncateSuffix index => exact stop rfl (.head .cut (.single .wait)) rfl
    | readBarrier index =>
      obtain ⟨tails, answers⟩ := ih idle output
      exact ⟨tails.pass rfl, answers⟩
    | readBarrierReady index =>
      have ready : SameBooks node { node with readBarrierReady := some index } :=
        ⟨rfl, rfl, rfl, rfl, rfl, rfl, rfl, rfl⟩
      have books := ready.trans (finishFollowerReadRound_books _ index)
      obtain ⟨tails, answers⟩ := ih (books.continuation.trans idle)
        (output ++ ({ node with readBarrierReady := some index }.finishFollowerReadRound index).2)
      refine ⟨Tails.pass rfl (.head (.quiet books) tails),
        fun out done => ?_⟩
      rcases finishFollowerReadRound_sends { node with readBarrierReady := some index } index with
        ⟨-, messages, -, sends⟩
      have silent : clientAnswers (messages.map NodeEffect.send) = [] := by
        apply clientAnswers_servesRead
        intro released member
        rcases List.mem_map.mp member with ⟨message, -, rfl⟩
        rfl
      rw [answers out done, clientAnswers_append, sends, silent, List.append_nil]
    | followerReadGrant sender term requestId commandHash readIndex readTime =>
      have books := acceptFollowerReadGrant_books node sender term requestId commandHash readIndex readTime
      obtain ⟨tails, answers⟩ := ih (books.continuation.trans idle) output
      exact ⟨Tails.pass rfl (.head (.quiet books) tails), answers⟩
    | followerReadRequest sender requestId commandHash at_ =>
      obtain ⟨served, same, silent⟩ := plain node sender requestId commandHash at_
      revert served same silent
      simp only [mapLoop]
      rcases accept node sender requestId commandHash at_ with ⟨next, _ | more⟩ <;> intro served same silent
      · refine ⟨Tails.pass rfl ((served idle rest).tail (.lose fun _ _ kept => kept)), of_error⟩
      · obtain ⟨tails, answers⟩ := ih (same.trans idle) (output ++ more)
        refine ⟨Tails.pass rfl ((served idle rest).trans tails), fun out done => ?_⟩
        rw [answers out done, clientAnswers_append, silent more rfl, List.append_nil]
    | apply entries =>
      simp only [mapLoop]
      rcases done : prepareCommittedEntries node.config.policy node.routes node.working entries with
        ⟨routes, _ | _ | ⟨current, pending⟩⟩
      · exact ⟨.single (.lose fun _ _ kept => prepareCommittedEntries_fewer done kept), of_error⟩
      · obtain ⟨tails, answers⟩ := @ih { node with routes } idle output
        exact ⟨.head (.skip idle done) tails, answers⟩
      · refine ⟨.single (.hand done), ?_⟩
        rintro _ ⟨⟩
        rw [clientAnswers_append]
        exact List.append_nil _

theorem mapEffects_tails (node : Node) (idle : node.continuation = none) (effects : List RaftEffect) :
    Tails (node.dropRoutes, effects) ((node.mapEffects effects).1, []) ∧
      ∀ out, (node.mapEffects effects).2 = .ok out → clientAnswers out = [] := by
  have looped := @mapLoop_tails node.dropRoutes effects _ acceptFollowerReadRequest_unobtrusive
    (node.dropRoutes_continuation.trans idle) []
  unfold mapEffects mapEffectsWith
  generalize mapLoop acceptFollowerReadRequest node.dropRoutes effects [] = attempt at looped
  obtain ⟨next, _ | out⟩ := attempt
  · exact ⟨looped.1, of_error⟩
  · refine ⟨looped.1.tail (.quiet next.drain_books), ?_⟩
    intro whole done
    have shape : whole = out ++ next.drain.2 := (Except.ok.inj done).symm
    have reads : clientAnswers next.drain.2 = [] := clientAnswers_servesRead fun released member =>
      NodeEffect.servesRead_of_isReadReply (next.drain_isReadReply released member)
    rw [shape, clientAnswers_append, looped.2 out rfl, reads]
    rfl

end Node

namespace Node
variable {node next : Node} {event : Event} {effects : List RaftEffect} {out : List NodeEffect}

def Splits (node : Node) (event : Event) (ticket : Option Ticket) (attempt : NodeAttempt) : Prop :=
  ∃ label middle effects, Head node event label middle effects ∧ Tails (middle, effects) (attempt.1, []) ∧
    label.ticket = ticket ∧ ∀ out, attempt.2 = .ok out → clientAnswers out = label.answers

theorem Splits.failed (node : Node) (halt : Halt) : Splits node event none (node, .error halt) :=
  ⟨.quiet, node, [], .rest (.refl node), .refl, rfl, of_error⟩

theorem Splits.answered (same : SameBooks node next) (silent : clientAnswers out = []) :
    Splits node event none (next, .ok out) := by
  refine ⟨.quiet, next, [], .rest same, .refl, rfl, ?_⟩
  rintro _ ⟨⟩
  exact silent

theorem Splits.mapped {label : Label} (head : Head node event label next.dropRoutes effects)
    (idle : next.continuation = none) (silent : label.answers = []) :
    Splits node event label.ticket (next.mapEffects effects) := by
  obtain ⟨tails, answers⟩ := next.mapEffects_tails idle effects
  exact ⟨label, _, _, head, tails, rfl, fun out done => by rw [answers out done, silent]⟩

theorem proposeCommand_traceless (node : Node) (command : KvCommand) (envelope : Bytes) :
    RaftNode.Traceless node.raft (node.proposeCommand command envelope) :=
  .ite (.proposeV3Batch _) (.proposeWithKind _ .app)

theorem raftCall_splits (call : Call) {attempt : RaftNode × Except RaftError (List RaftEffect)}
    (idle : node.continuation = none)
    (source : ∀ message now, call = .onMessageAt message now → event.heard = some (message, now))
    (made : RaftNode.settle attempt = node.raft.call call)
    (traceless : RaftNode.Traceless node.raft attempt) : Splits node event none (node.raftCall attempt) := by
  obtain ⟨raft, error | effects⟩ := attempt
  · obtain rfl : raft = node.raft := traceless error rfl
    exact .failed node _
  · have head : Head node event .quiet (dropRoutes { node with raft := (node.raft.call call).1 })
        (node.raft.call call).2 := .call call idle source (.refl _)
    rw [← made] at head
    exact Splits.mapped head idle rfl

theorem checkSubmit_leads {session : Option (SessionKey × Nat)} {command : Bytes} {leaderTime : Nat}
    {admission : Admission} (checked : node.checkSubmit session command leaderTime = .ok admission) :
    node.raft.role = .leader := by
  by_contra away
  unfold checkSubmit at checked
  simp [away, fail] at checked

theorem submitClient_splits (idle : node.continuation = none) (client : ClientId) (request : Nat)
    (session : Option (SessionKey × Nat)) (command : Bytes) (leaderTime : Nat) :
    Splits node event (node.ticketFor client request session command leaderTime)
      (node.submitClient client request session command leaderTime) := by
  unfold submitClient ticketFor
  cases checked : node.checkSubmit session command leaderTime with
  | error halt => exact .failed node halt
  | ok admission =>
    dsimp only
    cases proposed : node.proposeCommand admission.command
        (AppEnvelope.encode { session, leaderTime, command }) with
    | mk raft outcome =>
    cases outcome with
    | error error =>
      obtain rfl : raft = node.raft := (node.proposeCommand_traceless _ _).eq_of_refused proposed
      exact .failed node _
    | ok effects =>
      exact Splits.mapped (.submit client request idle (checkSubmit_leads checked) proposed) idle rfl

theorem read_splits (idle : node.continuation = none) (client : ClientId) (sequence : Nat)
    (command : KvCommand) (at_ : Nat) : Splits node event none (node.read client sequence command at_) := by
  unfold read
  dsimp only
  split
  · exact .failed node _
  cases asked : node.raft.requestRead with
  | mk raft outcome =>
  cases outcome with
  | error error =>
    obtain rfl := requestRead_refused asked
    exact .failed node _
  | ok effects =>
    have head : Head node event .quiet (dropRoutes
        { node with
          raft := (node.raft.call .requestRead).1
          readBarrierReady := none
          pendingReads := node.pendingReads ++ [⟨client, sequence, command, at_, raft.commitIndex⟩] })
        (node.raft.call .requestRead).2 := by
      apply Head.call .requestRead idle (by rintro _ _ ⟨⟩)
      unfold dropRoutes
      dsimp only
      split <;> exact ⟨rfl, rfl, rfl, rfl, rfl, rfl, rfl, rfl⟩
    have made : node.raft.call .requestRead = (raft, effects) := by
      unfold RaftNode.call RaftNode.settle
      dsimp only
      rw [asked]
    rw [made] at head
    exact Splits.mapped head idle rfl

theorem propose_leads {raft after : RaftNode} {payload : Bytes}
    (proposed : raft.propose payload = (after, .ok effects)) : after.role = .leader := by
  simp only [RaftNode.propose, RaftNode.proposeWithKind] at proposed
  split_ifs at proposed with away <;> cases proposed
  unfold RaftNode.advanceCommit
  split <;> exact not_not.mp away

theorem proposeSweep_tails (node : Node) (idle : node.continuation = none) (sweep : KvOp) (now : Nat) :
    Tails (node, []) ((node.proposeSweep sweep now).1, []) ∧
      ∀ out, (node.proposeSweep sweep now).2 = .ok out → clientAnswers out = [] := by
  unfold proposeSweep
  cases proposed : node.raft.propose (AppEnvelope.encode
      { session := none, leaderTime := now, command := encodeCommand (.op sweep) }) with
  | mk raft outcome =>
  cases outcome with
  | error error =>
    obtain rfl : raft = node.raft := (RaftNode.Traceless.proposeWithKind _ .app).eq_of_refused proposed
    exact ⟨.refl, of_error⟩
  | ok effects =>
    obtain ⟨tails, silent⟩ := mapEffects_tails { node with raft } idle effects
    rw [dropRoutes_leader (propose_leads proposed)] at tails
    exact ⟨.head (.sweep _ idle proposed) tails, silent⟩

theorem tick_splits (idle : node.continuation = none) (now : Nat) : Splits node event none (node.tick now) := by
  have head : Head node event .quiet (dropRoutes { node with raft := (node.raft.call (.tick now)).1 })
      (node.raft.call (.tick now)).2 := .call (.tick now) idle (by rintro _ _ ⟨⟩) (.refl _)
  obtain ⟨tails, silent⟩ := mapEffects_tails { node with raft := (node.raft.tick now).1 } idle
    (node.raft.tick now).2
  refine ⟨.quiet, _, _, head, ?_⟩
  unfold tick
  dsimp only
  generalize mapEffects { node with raft := (node.raft.tick now).1 } (node.raft.tick now).2 = mapped at tails silent
  obtain ⟨ticked, _ | out⟩ := mapped
  · exact ⟨tails, rfl, of_error⟩
  · dsimp only
    cases due : ticked.dueSweep now with
    | none => exact ⟨tails, rfl, silent⟩
    | some sweep =>
      obtain ⟨swept, quiet⟩ := ticked.proposeSweep_tails (idle_of_dueSweep due) sweep now
      dsimp only
      generalize ticked.proposeSweep sweep now = proposed at swept quiet
      obtain ⟨last, _ | more⟩ := proposed
      · exact ⟨tails.trans swept, rfl, of_error⟩
      · refine ⟨tails.trans swept, rfl, ?_⟩
        rintro _ ⟨⟩
        rw [clientAnswers_append, silent out rfl, quiet more rfl]
        rfl

def settled : NodeAttempt → NodeAttempt
  | (node, .error halt) => (node, .error halt)
  | (node, .ok output) => (node.settle, .ok output)

theorem Splits.settle {ticket : Option Ticket} {attempt : NodeAttempt} (splits : Splits node event ticket attempt) :
    Splits node event ticket (settled attempt) := by
  obtain ⟨label, middle, effects, head, tails, same, answers⟩ := splits
  refine ⟨label, middle, effects, head, ?_⟩
  obtain ⟨next, _ | out⟩ := attempt
  · exact ⟨tails, same, of_error⟩
  · exact ⟨tails.tail .settle, same, answers⟩

theorem persisted_splits (node : Node) (success : Bool) :
    Splits node (.input (.persisted success)) none (settled (node.persisted success)) := by
  unfold persisted
  cases held : node.continuation with
  | none => exact .failed node _
  | some continuation =>
    dsimp only
    split
    · exact ⟨.quiet, _, [], .drop, .refl, rfl, of_error⟩
    next durability =>
      have durable : Event.input (.persisted success) = .input (.persisted true) := by
        have yes : success = true := by simpa using durability
        rw [yes]
      cases continuation with
      | raft effects => exact (Splits.mapped (.resume held) rfl rfl).settle
      | store state =>
        obtain ⟨current, pending, deferred, remaining⟩ := state
        have shown : clientAnswers (current.reply.map PreparedReply.effect).toList =
            (Label.published (preparedAnswer current)).answers := by
          unfold preparedAnswer
          rcases current.reply with _ | reply
          · rfl
          · cases reply <;> rfl
        dsimp only [Node.publish]
        cases pending with
        | nil =>
          apply Splits.settle
          obtain ⟨tails, silent⟩ := mapEffects_tails
            (({ node with continuation := none } : Node).publishEntry current) rfl
            (deferred ++ current.postEffects ++ remaining)
          refine ⟨_, _, _, .finish durable held, ?_⟩
          generalize mapEffects (({ node with continuation := none } : Node).publishEntry current)
            (deferred ++ current.postEffects ++ remaining) = mapped at tails silent
          obtain ⟨last, _ | more⟩ := mapped
          · exact ⟨tails, rfl, of_error⟩
          · refine ⟨tails, rfl, ?_⟩
            intro out done
            rw [← Except.ok.inj done, clientAnswers_append, shown, silent more rfl, List.append_nil]
        | cons following pending =>
          refine ⟨_, _, [], .publish durable held, .refl, rfl, ?_⟩
          intro out done
          rw [← Except.ok.inj done, clientAnswers_append, shown]
          exact List.append_nil _

theorem handle_splits (input : Input) (idle : input.isPersisted = false → node.continuation = none) :
    Splits node (.input input) (node.admitted (.input input)) (settled (node.handle input)) := by
  cases input with
  | persisted success => exact node.persisted_splits success
  | tick now => exact (tick_splits (idle rfl) now).settle
  | message message =>
    apply Splits.settle
    refine Splits.mapped (.call (.onMessageAt message 0) (idle rfl) ?_ (.refl _)) (idle rfl) rfl
    rintro _ _ ⟨⟩
    rfl
  | messageAt now message =>
    apply Splits.settle
    refine Splits.mapped (.call (.onMessageAt message now) (idle rfl) ?_ (.refl _)) (idle rfl) rfl
    rintro _ _ ⟨⟩
    rfl
  | timer now kind =>
    apply Splits.settle
    exact Splits.mapped (.call (.onTimer now kind) (idle rfl) (by rintro _ _ ⟨⟩) (.refl _)) (idle rfl) rfl
  | clientRequest client sequence command leaderTime =>
    simp only [handle, admitted, idle rfl, Option.isSome_none]
    apply Splits.settle
    cases SessionKey.new SessionNamespace.userRequest.code client with
    | error _ => exact .failed node _
    | ok key => exact submitClient_splits (idle rfl) ..
  | clientBytes routeClient routeReq session command leaderTime =>
    simp only [handle, admitted, idle rfl, Option.isSome_none]
    exact (submitClient_splits (idle rfl) ..).settle
  | read client sequence command at_ => exact (read_splits (idle rfl) ..).settle

theorem onInput_splits (node : Node) (input : Input) :
    Splits node (.input input) (node.admitted (.input input)) (node.onInput input) := by
  unfold onInput
  split
  next pending =>
    rw [Bool.and_eq_true] at pending
    have none : node.admitted (.input input) = none := by
      cases input <;> first | rfl | simp [admitted, pending.1]
    rw [none]
    exact .failed node _
  next free =>
    exact handle_splits input fun other => by simpa [other] using free

theorem adminRequest_splits (idle : node.continuation = none) (now : Nat) (client : ClientId) (route : Nat)
    (session : SessionKey) (sequence : Nat) (operation : ConfigOperation) :
    Splits node event none (node.adminRequest now client route session sequence operation) := by
  unfold adminRequest
  split
  · exact .failed node _
  split
  · exact .failed node _
  split
  · exact .failed node _
  rcases node.adminAnswer now (session, sequence) operation with _ | _ | reply
  · exact .failed node _
  · dsimp only
    rcases node.adminPreflight operation with _ | _
    · exact .failed node _
    dsimp only
    cases proposed : node.raft.proposeAdminConfig
        { adminSession := some (session, sequence), leaderTime := now, operation } with
    | mk raft outcome =>
    cases outcome with
    | error error =>
      obtain rfl : raft = node.raft := (RaftNode.Traceless.proposeAdminConfig _).eq_of_refused proposed
      exact .failed node _
    | ok effects =>
      have head : Head node event .quiet (dropRoutes
          { node with
            raft := (node.raft.call (.proposeAdminConfig
              { adminSession := some (session, sequence), leaderTime := now, operation })).1
            routes := { node.routes with
              admin := node.routes.admin.insert session (client, route) } })
          (node.raft.call (.proposeAdminConfig
            { adminSession := some (session, sequence), leaderTime := now, operation })).2 := by
        refine Head.call (.proposeAdminConfig
          { adminSession := some (session, sequence), leaderTime := now, operation }) idle
          (by rintro _ _ ⟨⟩) ?_
        unfold dropRoutes
        dsimp only
        split <;> exact ⟨rfl, rfl, rfl, rfl, rfl, rfl, rfl, rfl⟩
      have made : node.raft.call (.proposeAdminConfig
          { adminSession := some (session, sequence), leaderTime := now, operation }) =
          (raft, effects) := by
        unfold RaftNode.call RaftNode.settle
        dsimp only
        rw [proposed]
      rw [made] at head
      exact Splits.mapped head idle rfl
  · exact .answered (.refl node) rfl

theorem hostCall_splits (idle : node.continuation = none) (call : HostCall) :
    Splits node event none (node.hostCall call) := by
  cases call with
  | addLearner id => exact raftCall_splits (.addLearner id) idle (by rintro _ _ ⟨⟩) rfl (.addLearner id)
  | promoteLearner id =>
    exact raftCall_splits (.promoteLearner id) idle (by rintro _ _ ⟨⟩) rfl (.promoteLearner id)
  | enterJoint voters =>
    exact raftCall_splits (.enterJoint voters) idle (by rintro _ _ ⟨⟩) rfl (.enterJoint voters)
  | leaveJoint => exact raftCall_splits .leaveJoint idle (by rintro _ _ ⟨⟩) rfl .leaveJoint
  | activateAtomicBatch now =>
    simp only [hostCall, activateAtomicBatch]
    split
    · exact .failed node _
    · exact raftCall_splits (.activateFeature atomicBatchFeature now) idle (by rintro _ _ ⟨⟩) rfl
        (.activateFeature _ now)
  | adminRequest => exact adminRequest_splits idle ..
  | followerRead client sequence command =>
    simp only [hostCall, requestFollowerRead]
    split
    · exact .failed node _
    split
    · exact .failed node _
    split
    · exact .failed node _
    split
    · exact .failed node _
    split
    · exact .failed node _
    · split
      · exact .failed node _
      · exact .answered ⟨rfl, rfl, rfl, rfl, rfl, rfl, rfl, rfl⟩ rfl

/-- Every event is one head step and the work on the effects it leaves in hand. -/
theorem perform_splits (node : Node) (event : Event) :
    Splits node event (node.admitted event) (node.perform event) := by
  cases event with
  | input input => exact node.onInput_splits input
  | call call =>
    simp only [perform, admitted]
    split
    · exact .failed node _
    next free => exact hostCall_splits (by simpa using free) call
  | observePeer peer semanticVersion features =>
    simp only [perform, observePeerCapability, admitted]
    split
    · exact .failed node _
    · exact .answered ⟨rfl, rfl, rfl, rfl, rfl, rfl, rfl, rfl⟩ rfl
  | forgetPeer peer => exact .answered ⟨rfl, rfl, rfl, rfl, rfl, rfl, rfl, rfl⟩ rfl

end Node
end CrashCourse.Cluster
