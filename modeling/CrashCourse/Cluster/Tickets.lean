import CrashCourse.Cluster.Carrying

/-!
Where the replies to clients come from. A ledger holds a ticket for every command admitted
in the present leadership and not answered; every reply takes one out and is the result of
applying its entry.
-/

namespace CrashCourse.Cluster
open CrashCourse.Core CrashCourse.KeyValue CrashCourse.Raft

namespace Node
variable {node middle next : Node} {ledger : List Ticket} {effects : List RaftEffect}

def inOffice (raft : RaftNode) (ticket : Ticket) : Bool :=
  decide (raft.role = .leader) && ticket.entry.term == raft.hardState.term

/-- The reply goes to the client on the ticket and is what applying the entry on it yields. -/
def Settles (node : Node) (ticket : Ticket) (answer : Answer) : Prop :=
  ticket.client = answer.client ∧ ticket.request = answer.request ∧ inOffice node.raft ticket = true ∧
    ∃ carried, carryEntry node.config.policy node.working ticket.entry = .ok carried ∧
      carried.clientReply = some answer.reply

/-- Every reply settles a ticket, which is taken out; the tickets of a past leadership
are void. -/
def Honest (ledger : List Ticket) (node : Node) : List Event → Prop
  | [] => True
  | event :: events =>
    let after := (node.perform event).1
    match clientAnswers ((node.perform event).2.toOption.getD []) with
    | [] => Honest ((ledger ++ (node.admitted event).toList).filter (inOffice after.raft)) after events
    | [answer] => ∃ ticket ∈ ledger, Settles node ticket answer ∧
        Honest (((ledger.erase ticket) ++ (node.admitted event).toList).filter (inOffice after.raft))
          after events
    | _ => False

/-- No message in the leader's own name makes it stand again. -/
def calm (node : Node) (event : Event) : Bool :=
  event.heard.all fun heard => !node.raft.urgesItself (.onMessageAt heard.1 heard.2)

/-- The leader does not stand again, and no published entry takes the role from the
node while replies of later entries wait. -/
def steady (node : Node) (event : Event) : Bool :=
  node.calm event &&
    match event, node.continuation with
    | .input (.persisted true), some (.store state) =>
      decide (state.current.next.raft.role = .leader) ||
        state.pending.all fun prepared => (preparedAnswer prepared).isNone
    | _, _ => true

def steadyAll (node : Node) : List Event → Bool
  | [] => true
  | event :: events => node.steady event && (node.perform event).1.steadyAll events

/-- What is in hand was handed out by the leadership of the tickets. -/
def Handed (ledger : List Ticket) (raft : RaftNode) (effects : List RaftEffect) : Prop :=
  ledger ≠ [] →
    (∀ entry ∈ appliedBy effects, entry ∈ raft.log) ∧ ∀ index, .truncateSuffix index ∉ effects

abbrev Link := Entry × PreparedCommittedEntry

def Link.answered (link : Link) : Bool := (preparedAnswer link.2).isSome

/-- Each entry was carried out on what the one before it left. -/
inductive Chained (policy : ClusterPolicy) : Working → List Link → Prop
  | nil (working : Working) : Chained policy working []
  | cons {working : Working} {entry : Entry} {prepared : PreparedCommittedEntry} {carried : Carried}
      {links : List Link} (carries : carryEntry policy working entry = .ok carried)
      (raft : prepared.next.raft = carried.next.raft) (post : prepared.postEffects = carried.postEffects)
      (reply : ∀ answer, preparedAnswer prepared = some answer → carried.clientReply = some answer.reply)
      (rest : Chained policy prepared.next links) : Chained policy working ((entry, prepared) :: links)

/-- The replies that wait have tickets, which no route and no other reply shares. -/
structure Owed (ledger : List Ticket) (client : BTreeMap Nat (ClientId × Nat)) (links : List Link) : Prop where
  ticket : ∀ link ∈ links, ∀ answer, preparedAnswer link.2 = some answer →
    ∃ ticket ∈ ledger, ticket.entry = link.1 ∧ ticket.client = answer.client ∧ ticket.request = answer.request
  unrouted : ∀ link ∈ links, link.answered = true → client[link.1.index]? = none
  distinct : ((links.filter Link.answered).map fun link => link.1.index).Nodup

def Awaited (ledger : List Ticket) (node : Node) : Prop :=
  match node.continuation with
  | none => True
  | some (.raft effects) => Handed ledger node.raft effects
  | some (.store state) =>
    Handed ledger node.raft (state.deferred ++ state.remaining) ∧
    ∃ links : List Link, links.map Prod.snd = state.current :: state.pending ∧
      Chained node.config.policy node.working links ∧ Owed ledger node.routes.client links

structure Placed (ledger : List Ticket) (raft : RaftNode) : Prop where
  tracked : raft.Tracked
  placed : ∀ ticket ∈ ledger, inOffice raft ticket = true ∧ ticket.entry ∈ raft.log
  distinct : (ledger.map fun ticket => ticket.entry.index).Nodup

structure Booked (ledger : List Ticket) (node : Node) : Prop extends Placed ledger node.raft where
  known : ∀ (index : Nat) (route : ClientId × Nat), node.routes.client[index]? = some route →
    ∃ ticket ∈ ledger, ticket.entry.index = index ∧ (ticket.client, ticket.request) = route

inductive InHand (ledger : List Ticket) : Node × List RaftEffect → Prop
  | busy {node : Node} {effects : List RaftEffect} (booked : Booked ledger node)
      (idle : node.continuation = none) (handed : Handed ledger node.raft effects) :
      InHand ledger (node, effects)
  | done {node : Node} (booked : Booked ledger node) (awaited : Awaited ledger node) :
      InHand ledger (node, [])

theorem tracked_unique {raft : RaftNode} (tracked : raft.Tracked)
    {one two : Entry} (here : one ∈ raft.log) (there : two ∈ raft.log) (same : one.index = two.index) :
    one = two := by
  have nodup : (raft.log.map Entry.index).Nodup := by
    rw [Numbered.indices tracked.numbered]
    exact List.nodup_range'
  exact List.inj_on_of_nodup_map nodup here there same

theorem Handed.nil (ledger : List Ticket) (raft : RaftNode) : Handed ledger raft [] :=
  fun _ => ⟨nofun, nofun⟩

theorem Handed.of_extends {raft last : RaftNode} (grows : raft.Extends effects last) : Handed ledger last effects :=
  fun _ => ⟨grows.handed, grows.whole⟩

theorem Handed.void (raft : RaftNode) (effects : List RaftEffect) : Handed [] raft effects :=
  fun booked => absurd rfl booked

theorem Handed.grows {raft last : RaftNode} {first second rest : List RaftEffect}
    (handed : Handed ledger raft (first ++ rest)) (grows : raft.Extends second last) :
    Handed ledger last (first ++ second ++ rest) := by
  intro booked
  obtain ⟨held, whole⟩ := handed booked
  simp only [appliedBy_append, List.mem_append] at held whole ⊢
  refine ⟨?_, ?_⟩
  · rintro entry ((early | new) | late)
    · exact grows.mem (held entry (.inl early))
    · exact grows.handed entry new
    · exact grows.mem (held entry (.inr late))
  · rintro index ((early | new) | late)
    · exact whole index (.inl early)
    · exact grows.whole index new
    · exact whole index (.inr late)

theorem Handed.rest {raft : RaftNode} {effect : RaftEffect} {rest : List RaftEffect}
    (handed : Handed ledger raft (effect :: rest)) : Handed ledger raft rest := by
  intro booked
  obtain ⟨held, whole⟩ := handed booked
  refine ⟨fun entry member => held entry ?_, fun index member => whole index (List.mem_cons_of_mem _ member)⟩
  cases effect <;> first | exact member | exact List.mem_append_right _ member

theorem Owed.fewer {client fewer : BTreeMap Nat (ClientId × Nat)} {links : List Link}
    (owed : Owed ledger client links)
    (less : ∀ (index : Nat) (route : ClientId × Nat), fewer[index]? = some route → client[index]? = some route) :
    Owed ledger fewer links where
  ticket := owed.ticket
  unrouted link member answered := by
    cases held : fewer[link.1.index]? with
    | none => rfl
    | some route =>
      have routed := less _ _ held
      rw [owed.unrouted link member answered] at routed
      cases routed
  distinct := owed.distinct

theorem routedReply_kv {routes : ReplyRoutes} {entry : Entry} {carried : Carried} {client : ClientId}
    {request : Nat} {reply : KvReply} (routed : routedReply routes entry carried = some (.kv client request reply)) :
    carried.clientReply = some reply ∧ routes.client[entry.index]? = some (client, request) := by
  unfold routedReply at routed
  split at routed
  next value _ held =>
    obtain ⟨route, found, same⟩ := Option.map_eq_some_iff.mp routed
    cases same
    exact ⟨held, found⟩
  next =>
    obtain ⟨route, found, same⟩ := Option.map_eq_some_iff.mp routed
    cases same
  next => cases routed

theorem sealEntry_ok {routes : ReplyRoutes} {base : Working} {entry : Entry} {carried : Carried}
    {prepared : PreparedCommittedEntry} (done : sealEntry routes base entry carried = .ok prepared) :
    prepared.next.raft = carried.next.raft ∧ prepared.postEffects = carried.postEffects ∧
      prepared.reply = routedReply routes entry carried := by
  obtain ⟨-, walFrame, kv, -, rfl⟩ := sealEntry_ok_iff.mp done
  exact ⟨rfl, rfl, rfl⟩

theorem sealEntry_answer {routes : ReplyRoutes} {base : Working} {entry : Entry} {carried : Carried}
    {prepared : PreparedCommittedEntry} (done : sealEntry routes base entry carried = .ok prepared)
    {answer : Answer} (answers : preparedAnswer prepared = some answer) : carried.clientReply = some answer.reply ∧
      routes.client[entry.index]? = some (answer.client, answer.request) := by
  unfold preparedAnswer at answers
  split at answers
  next client request reply replied =>
    rw [(sealEntry_ok done).2.2] at replied
    obtain rfl := Option.some.inj answers
    exact routedReply_kv replied
  next => cases answers

structure Spent (before after : BTreeMap Nat (ClientId × Nat)) (links : List Link) : Prop where
  routed : ∀ link ∈ links, ∀ answer, preparedAnswer link.2 = some answer →
    before[link.1.index]? = some (answer.client, answer.request)
  gone : ∀ link ∈ links, link.answered = true → after[link.1.index]? = none
  distinct : ((links.filter Link.answered).map fun link => link.1.index).Nodup

theorem Spent.nil (client : BTreeMap Nat (ClientId × Nat)) : Spent client client [] where
  routed _ member := absurd member List.not_mem_nil
  gone _ member := absurd member List.not_mem_nil
  distinct := List.nodup_nil

theorem Spent.cons {before middle after : BTreeMap Nat (ClientId × Nat)} {link : Link} {links : List Link}
    (spent : Spent middle after links)
    (less : ∀ (index : Nat) (route : ClientId × Nat), middle[index]? = some route → before[index]? = some route)
    (fewer : ∀ (index : Nat) (route : ClientId × Nat), after[index]? = some route → middle[index]? = some route)
    (routed : ∀ answer, preparedAnswer link.2 = some answer →
      before[link.1.index]? = some (answer.client, answer.request) ∧ middle[link.1.index]? = none) :
    Spent before after (link :: links) := by
  have taken (answered : link.answered = true) : middle[link.1.index]? = none := by
    obtain ⟨answer, answers⟩ := Option.isSome_iff_exists.mp answered
    exact (routed answer answers).2
  constructor
  · intro other member answer answers
    rcases List.mem_cons.mp member with rfl | later
    · exact (routed answer answers).1
    · exact less _ _ (spent.routed other later answer answers)
  · intro other member answered
    rcases List.mem_cons.mp member with rfl | later
    · cases held : after[other.1.index]? with
      | none => rfl
      | some route =>
        have still := fewer _ _ held
        rw [taken answered] at still
        cases still
    · exact spent.gone other later answered
  · cases answered : link.answered with
    | false =>
      rw [List.filter_cons_of_neg (by simp [answered])]
      exact spent.distinct
    | true =>
      rw [List.filter_cons_of_pos answered, List.map_cons, List.nodup_cons]
      refine ⟨fun member => ?_, spent.distinct⟩
      -- a later reply of the same index would need the route that is gone
      obtain ⟨other, kept, same⟩ := List.mem_map.mp member
      obtain ⟨later, replies⟩ := List.mem_filter.mp kept
      obtain ⟨answer, answers⟩ := Option.isSome_iff_exists.mp replies
      have held := spent.routed other later answer answers
      rw [same, taken answered] at held
      cases held

theorem prepareCommittedEntries_links {policy : ClusterPolicy} {routes left : ReplyRoutes}
    {working : Working} {entries : List Entry} {prepared : List PreparedCommittedEntry}
    (done : prepareCommittedEntries policy routes working entries = (left, .ok prepared)) :
    ∃ links : List Link, links.map Prod.snd = prepared ∧ links.map Prod.fst = entries ∧
      Chained policy working links ∧ Spent routes.client left.client links := by
  induction entries generalizing routes working prepared with
  | nil =>
    obtain ⟨rfl, same⟩ := Prod.mk.inj done
    obtain rfl := Except.ok.inj same
    exact ⟨[], rfl, rfl, .nil working, .nil _⟩
  | cons entry rest ih =>
    obtain ⟨carried, first, others, carries, sealed, prepares, rfl⟩ := prepareCommittedEntries_cons done
    obtain ⟨raft, post, -⟩ := sealEntry_ok sealed
    obtain ⟨links, seconds, firsts, chained, spent⟩ := ih prepares
    refine ⟨(entry, first) :: links, by rw [List.map_cons, seconds], by rw [List.map_cons, firsts],
      .cons carries raft post (fun answer answers => (sealEntry_answer sealed answers).1) chained, ?_⟩
    refine spent.cons ?_ (fun _ _ => prepareCommittedEntries_fewer prepares) ?_
    · intro index route held
      split at held
      · rw [Std.ExtTreeMap.getElem?_erase] at held
        split at held
        · cases held
        · exact held
      · exact held
    · intro answer answers
      obtain ⟨replied, routed⟩ := sealEntry_answer sealed answers
      refine ⟨routed, ?_⟩
      rw [if_pos (by rw [replied]; rfl)]
      simp

theorem Placed.carry {raft after : RaftNode} (placed : Placed ledger raft) (tracked : after.Tracked)
    (office : ∀ ticket ∈ ledger, inOffice after ticket = true)
    (log : ∀ entry ∈ raft.log, entry ∈ after.log) : Placed ledger after where
  tracked := tracked
  placed ticket member := ⟨office ticket member, log _ (placed.placed ticket member).2⟩
  distinct := placed.distinct

theorem Booked.carry (booked : Booked ledger node) (placed : Placed ledger next.raft)
    (fewer : ∀ (index : Nat) (route : ClientId × Nat), next.routes.client[index]? = some route →
      node.routes.client[index]? = some route) : Booked ledger next where
  toPlaced := placed
  known index route held := booked.known index route (fewer index route held)

theorem Booked.fewer (booked : Booked ledger node) (raft : next.raft = node.raft)
    (fewer : ∀ (index : Nat) (route : ClientId × Nat), next.routes.client[index]? = some route →
      node.routes.client[index]? = some route) : Booked ledger next := by
  refine booked.carry ?_ fewer
  rw [raft]
  exact booked.toPlaced

theorem Awaited.fewer (awaited : Awaited ledger node) (raft : next.raft = node.raft)
    (kv : next.kv = node.kv) (sessions : next.sessions = node.sessions) (config : next.config = node.config)
    (continuation : next.continuation = node.continuation)
    (fewer : ∀ (index : Nat) (route : ClientId × Nat), next.routes.client[index]? = some route →
      node.routes.client[index]? = some route) : Awaited ledger next := by
  unfold Awaited at awaited ⊢
  rw [continuation, raft, config]
  split at awaited
  · trivial
  · exact awaited
  · obtain ⟨handed, links, shape, chained, owed⟩ := awaited
    refine ⟨handed, links, shape, ?_, owed.fewer fewer⟩
    unfold working
    rw [kv, sessions, raft]
    exact chained

theorem InHand.booked (hand : InHand ledger (node, effects)) : Booked ledger node := by
  cases hand with
  | busy booked => exact booked
  | done booked => exact booked

theorem InHand.handed (hand : InHand ledger (node, effects)) : Handed ledger node.raft effects := by
  cases hand with
  | busy _ _ handed => exact handed
  | done => exact .nil ledger _

theorem InHand.idle {effect : RaftEffect} {rest : List RaftEffect}
    (hand : InHand ledger (node, effect :: rest)) : node.continuation = none := by
  cases hand with
  | busy _ idle => exact idle

theorem InHand.fewer (hand : InHand ledger (node, effects)) (raft : next.raft = node.raft)
    (kv : next.kv = node.kv) (sessions : next.sessions = node.sessions) (config : next.config = node.config)
    (continuation : next.continuation = node.continuation)
    (fewer : ∀ (index : Nat) (route : ClientId × Nat), next.routes.client[index]? = some route →
      node.routes.client[index]? = some route) : InHand ledger (next, effects) := by
  have booked := hand.booked.fewer raft fewer
  cases hand with
  | busy _ idle handed =>
    rw [← raft] at handed
    exact .busy booked (continuation.trans idle) handed
  | done _ awaited => exact .done booked (awaited.fewer raft kv sessions config continuation fewer)

theorem proposeWithKind_continues {raft after : RaftNode} {payload : Bytes} {kind : EntryKind}
    (proposed : raft.proposeWithKind payload kind = (after, .ok effects)) :
    raft.role = .leader ∧ after.role = .leader ∧
      after.log = raft.log ++ [⟨raft.hardState.term, raft.lastIndex + 1, kind, payload⟩] ∧
      Continues raft effects after := by
  have tries : raft.Tries _ := raft.proposeWithKind_tries payload kind
  rw [proposed] at tries
  have moves : RaftNode.Moves True raft effects after := tries
  have continues : Continues raft effects after :=
    ⟨tries.serves, moves.extends_, fun tracked => (moves.advances tracked).tracked,
      fun tracked => (moves.advances tracked).grows,
      fun tracked => .of_advances (moves.advances tracked) fun _ member => member⟩
  simp only [RaftNode.proposeWithKind] at proposed
  split_ifs at proposed with away <;> cases proposed
  refine ⟨not_not.mp away, ?_, ?_, continues⟩
  · unfold RaftNode.advanceCommit
    split <;> exact not_not.mp away
  · unfold RaftNode.advanceCommit
    split <;> rfl

theorem requestRead_continues (raft : RaftNode) : raft.requestRead.1.role = raft.role ∧
    raft.requestRead.1.hardState.term = raft.hardState.term ∧ raft.requestRead.1.log = raft.log ∧
      raft.requestRead.1.appliedIndex = raft.appliedIndex := by
  refine ⟨?_, raft.requestRead_tries.serves.term, ?_, ?_⟩
  all_goals
    simp only [RaftNode.requestRead]
    split_ifs <;> rfl

theorem inOffice_congr {raft after : RaftNode} (role : after.role = raft.role)
    (term : after.hardState.term = raft.hardState.term) : inOffice after = inOffice raft := by
  funext ticket
  unfold inOffice
  rw [role, term]

theorem inOffice_leads {raft : RaftNode} {ticket : Ticket} (held : inOffice raft ticket = true) :
    raft.role = .leader := by
  unfold inOffice at held
  simp only [Bool.and_eq_true, decide_eq_true_eq] at held
  exact held.1

theorem inOffice_away {raft : RaftNode} (away : raft.role ≠ .leader) (tickets : List Ticket) :
    tickets.filter (inOffice raft) = [] := by
  rw [List.filter_eq_nil_iff]
  exact fun ticket _ held => away (inOffice_leads held)

section Office
variable {raft after : RaftNode}

theorem Placed.office (placed : Placed ledger raft) (serves : raft.Serves after)
    (leads : after.role = .leader) : ∀ ticket ∈ ledger, inOffice after ticket = true := by
  intro ticket member
  have before := (placed.placed ticket member).1
  have role := leads.trans (inOffice_leads before).symm
  rw [inOffice_congr role serves.term]
  exact before

theorem Placed.filter (placed : Placed ledger raft) (serves : raft.Serves after)
    (leads : after.role = .leader) : ledger.filter (inOffice after) = ledger :=
  List.filter_eq_self.mpr (placed.office serves leads)

theorem Placed.continues (placed : Placed ledger raft) (continues : Continues raft effects after)
    (leads : after.role = .leader) : Placed ledger after :=
  placed.carry (continues.tracked placed.tracked) (placed.office continues.serves leads)
    fun _ member => continues.grows.mem member

theorem Placed.empty (tracked : raft.Tracked) : Placed [] raft where
  tracked := tracked
  placed _ member := absurd member List.not_mem_nil
  distinct := List.nodup_nil

theorem Placed.away (placed : Placed ledger raft) (away : raft.role ≠ .leader) : ledger = [] :=
  List.eq_nil_iff_forall_not_mem.mpr fun ticket member => away (inOffice_leads (placed.placed ticket member).1)

end Office

theorem Placed.asked {raft : RaftNode} (placed : Placed ledger raft) : Placed ledger raft.requestRead.1 := by
  obtain ⟨role, term, log, -⟩ := requestRead_continues raft
  refine placed.carry (Continues.call_tracked raft .requestRead placed.tracked) ?_ ?_
  · intro ticket member
    rw [inOffice_congr role term]
    exact (placed.placed ticket member).1
  · exact fun entry member => log ▸ member

def SameOffice (before after : RaftNode) : Prop :=
  after.role = before.role ∧ after.hardState.term = before.hardState.term

theorem InHand.store {entries : List Entry} {rest : List RaftEffect} {routes : ReplyRoutes}
    {current : PreparedCommittedEntry} {pending : List PreparedCommittedEntry}
    (hand : InHand ledger (node, .apply entries :: rest))
    (prepared : prepareCommittedEntries node.config.policy node.routes node.working entries =
      (routes, .ok (current :: pending))) :
    InHand ledger (({ node with routes } : Node).await (.store ⟨current, pending, [], rest⟩), []) := by
  have booked := hand.booked
  obtain ⟨links, shape, firsts, chained, spent⟩ := prepareCommittedEntries_links prepared
  refine .done (booked.fewer rfl fun _ _ => prepareCommittedEntries_fewer prepared)
    ⟨hand.handed.rest, links, shape, chained, ?_, spent.gone, spent.distinct⟩
  intro link member answer answers
  obtain ⟨ticket, held, index, route⟩ := booked.known _ _ (spent.routed link member answer answers)
  obtain ⟨client, request⟩ := Prod.mk.inj route
  -- the entry on the ticket and the one in hand are in one log, under one index
  have entry : link.1 ∈ entries := firsts ▸ List.mem_map_of_mem member
  have logged := (hand.handed (List.ne_nil_of_mem held)).1 link.1 (List.mem_append_left _ entry)
  have same := tracked_unique booked.tracked (booked.placed ticket held).2 logged index
  exact ⟨ticket, held, same, client, request⟩

theorem Tail.keeps {before after : Node × List RaftEffect} (tail : Tail before after)
    (hand : InHand ledger before) : InHand ledger after ∧ SameOffice before.1.raft after.1.raft := by
  have booked := hand.booked
  cases tail with
  | quiet same =>
    refine ⟨hand.fewer same.raft same.kv same.sessions same.config same.continuation ?_, ?_⟩
    · rw [same.client]
      exact fun _ _ held => held
    · rw [same.raft]
      exact ⟨rfl, rfl⟩
  | pass => exact ⟨.busy booked hand.idle hand.handed.rest, rfl, rfl⟩
  | @ask node effects idle =>
    obtain ⟨role, term, log, -⟩ := requestRead_continues node.raft
    refine ⟨.busy (booked.carry booked.asked fun _ _ held => held) idle ?_, role, term⟩
    unfold Handed
    dsimp only
    rw [log]
    exact hand.handed
  | cut =>
    refine ⟨.busy (booked.fewer rfl ?_) hand.idle hand.handed.rest, rfl, rfl⟩
    intro index route held
    simp only [forgetSuffix] at held
    rw [Std.ExtTreeMap.getElem?_filter'] at held
    exact (Option.filter_eq_some_iff.mp held).1
  | skip idle prepared =>
    exact ⟨.busy (booked.fewer rfl fun _ _ => prepareCommittedEntries_fewer prepared) idle hand.handed.rest,
      rfl, rfl⟩
  | hand prepared => exact ⟨hand.store prepared, rfl, rfl⟩
  | wait => exact ⟨.done (booked.fewer rfl fun _ _ held => held) hand.handed, rfl, rfl⟩
  | lose fewer =>
    refine ⟨.done (booked.fewer rfl fewer) ?_, rfl, rfl⟩
    cases hand with
    | busy _ idle =>
      unfold Awaited
      dsimp only
      rw [idle]
      trivial
    | done _ awaited => exact awaited.fewer rfl rfl rfl rfl rfl fewer
  | sweep payload idle proposed =>
    obtain ⟨led, leads, log, continues⟩ := proposeWithKind_continues proposed
    exact ⟨.busy (booked.carry (booked.continues continues leads) fun _ _ held => held) idle
      (.of_extends continues.grows), leads.trans led.symm, continues.serves.term⟩
  | @settle node =>
    have same : node.settle.raft = node.raft ∧ node.settle.kv = node.kv ∧
        node.settle.sessions = node.sessions ∧ node.settle.config = node.config := by
      unfold Node.settle
      split <;> exact ⟨rfl, rfl, rfl, rfl⟩
    obtain ⟨raft, kv, sessions, config⟩ := same
    refine ⟨hand.fewer raft kv sessions config (settle_continuation node) ?_, ?_⟩
    · intro index route
      unfold Node.settle
      split
      · exact id
      · simp
    · rw [raft]
      exact ⟨rfl, rfl⟩

theorem Tails.keeps {before after : Node × List RaftEffect} (tails : Tails before after)
    (hand : InHand ledger before) : InHand ledger after ∧ SameOffice before.1.raft after.1.raft := by
  induction tails with
  | refl => exact ⟨hand, rfl, rfl⟩
  | tail _ step ih =>
    obtain ⟨middle, role, term⟩ := ih
    obtain ⟨last, role', term'⟩ := step.keeps middle
    exact ⟨last, role'.trans role, term'.trans term⟩

theorem Booked.empty (tracked : node.raft.Tracked)
    (unrouted : ∀ index : Nat, node.routes.client[index]? = none) : Booked [] node where
  toPlaced := .empty tracked
  known index route held := by
    rw [unrouted index] at held
    cases held

theorem Booked.away (booked : Booked ledger node) (away : node.raft.role ≠ .leader) :
    ledger = [] ∧ ∀ index : Nat, node.routes.client[index]? = none := by
  have none : ledger = [] := booked.toPlaced.away away
  refine ⟨none, fun index => ?_⟩
  cases held : node.routes.client[index]? with
  | none => rfl
  | some route =>
    obtain ⟨ticket, member, -⟩ := booked.known index route held
    rw [none] at member
    cases member

theorem dropRoutes_away (away : node.raft.role ≠ .leader) (index : Nat) :
    node.dropRoutes.routes.client[index]? = none := by
  unfold dropRoutes
  rw [if_neg away]
  simp

theorem dropRoutes_fewer (node : Node) (index : Nat) (route : ClientId × Nat)
    (held : node.dropRoutes.routes.client[index]? = some route) : node.routes.client[index]? = some route := by
  unfold dropRoutes at held
  split at held
  · exact held
  · simp at held

theorem dropRoutes_raft (node : Node) : node.dropRoutes.raft = node.raft := by
  unfold dropRoutes
  split <;> rfl

theorem steady_calm {event : Event} (steady : node.steady event = true) : node.calm event = true := by
  unfold Node.steady at steady
  rw [Bool.and_eq_true] at steady
  exact steady.1

theorem calm_call {event : Event} (calm : node.calm event = true) {call : Call}
    (source : ∀ message now, call = .onMessageAt message now → event.heard = some (message, now)) :
    node.raft.urgesItself call = false := by
  cases call with
  | onMessageAt message now =>
    simp only [Node.calm, source message now rfl, Option.all_some, Bool.not_eq_true'] at calm
    exact calm
  | _ => rfl

theorem Booked.called (booked : Booked ledger node) (idle : node.continuation = none) (call : Call)
    (calm : node.raft.urgesItself call = false) : InHand (ledger.filter (inOffice (node.raft.call call).1))
      (dropRoutes { node with raft := (node.raft.call call).1 }, (node.raft.call call).2) := by
  have tracked := Continues.call_tracked node.raft call booked.tracked
  by_cases leads : (node.raft.call call).1.role = .leader
  · rw [dropRoutes_leader leads]
    by_cases led : node.raft.role = .leader
    · have serves := node.raft.call_serves call led calm leads
      have grows := node.raft.call_extends call leads
      rw [booked.filter serves leads]
      exact .busy (booked.carry (booked.toPlaced.carry tracked (booked.office serves leads)
        fun _ member => grows.mem member) fun _ _ held => held) idle (.of_extends grows)
    · -- a leadership that begins has no routes yet
      obtain ⟨rfl, unrouted⟩ := booked.away led
      exact .busy (.empty tracked unrouted) idle (.void _ _)
  · rw [inOffice_away leads]
    refine .busy (.empty ?_ (dropRoutes_away leads)) ?_ (.void _ _)
    · rw [dropRoutes_raft]
      exact tracked
    · rw [dropRoutes_continuation]
      exact idle

theorem proposeCommand_continues {raft : RaftNode} {command : KvCommand} {envelope : Bytes}
    (proposed : node.proposeCommand command envelope = (raft, .ok effects)) :
    node.raft.role = .leader ∧ raft.role = .leader ∧
      raft.log = node.raft.log ++ [node.entryFor command envelope] ∧ Continues node.raft effects raft := by
  unfold proposeCommand at proposed
  unfold entryFor
  split at proposed
  next batch =>
    rw [if_pos batch]
    unfold RaftNode.proposeV3Batch at proposed
    split at proposed
    · cases (Prod.mk.inj proposed).2
    · exact proposeWithKind_continues proposed
  next single =>
    rw [if_neg single]
    exact proposeWithKind_continues proposed

theorem lastIndex_append (raft : RaftNode) {entries : List Entry} {entry : Entry}
    (log : raft.log = entries ++ [entry]) : raft.lastIndex = entry.index := by
  unfold RaftNode.lastIndex
  rw [log, List.getLast?_append_of_ne_nil _ (List.cons_ne_nil _ _)]
  rfl

theorem tracked_last {raft : RaftNode} (tracked : raft.Tracked) {entry : Entry} (member : entry ∈ raft.log) :
    entry.index ≤ raft.lastIndex := by
  obtain ⟨position, here⟩ := List.getElem?_of_mem member
  obtain ⟨within, -⟩ := List.getElem?_eq_some_iff.mp here
  have index := tracked.numbered.getElem_index here
  rw [RaftNode.lastIndex_numbered tracked.numbered]
  omega

theorem Placed.submitted {raft : RaftNode} {command : KvCommand} {envelope : Bytes} {ticket : Ticket}
    (placed : Placed ledger node.raft) (entry : ticket.entry = node.entryFor command envelope)
    (proposed : node.proposeCommand command envelope = (raft, .ok effects)) :
    (ledger ++ [ticket]).filter (inOffice raft) = ledger ++ [ticket] ∧ Placed (ledger ++ [ticket]) raft ∧
      ∀ other ∈ ledger, other.entry.index < ticket.entry.index := by
  obtain ⟨-, leads, log, continues⟩ := proposeCommand_continues proposed
  have fresh : inOffice raft ticket = true := by
    unfold inOffice
    rw [continues.serves.term, entry]
    simp [leads, entryFor]
  -- the new index is above every index of the log so far
  have above : ∀ other ∈ ledger, other.entry.index < ticket.entry.index := by
    intro other member
    have below := tracked_last placed.tracked (placed.placed other member).2
    rw [entry]
    simp only [entryFor]
    omega
  refine ⟨?_, ⟨continues.tracked placed.tracked, ?_, ?_⟩, above⟩
  · rw [List.filter_append, placed.filter continues.serves leads, List.filter_cons_of_pos fresh, List.filter_nil]
  · intro other member
    rcases List.mem_append.mp member with old | new
    · exact (placed.continues continues leads).placed other old
    · obtain rfl := List.mem_singleton.mp new
      refine ⟨fresh, ?_⟩
      rw [log, entry]
      exact List.mem_append_right _ List.mem_cons_self
  · rw [List.map_append, List.nodup_append]
    refine ⟨placed.distinct, List.nodup_singleton _, ?_⟩
    rintro place old _ new rfl
    obtain ⟨other, member, rfl⟩ := List.mem_map.mp old
    have same := List.mem_singleton.mp new
    exact absurd same (above other member).ne

theorem Booked.submitted {raft : RaftNode} {command : KvCommand} {envelope : Bytes} {admission : Admission}
    (booked : Booked ledger node) (client : ClientId) (request : Nat) (idle : node.continuation = none)
    (proposed : node.proposeCommand command envelope = (raft, .ok effects)) :
    InHand ((ledger ++ [Ticket.mk client request (node.entryFor command envelope) admission.reservation
        admission.positiveDelta]).filter (inOffice raft))
      (dropRoutes (({ node with raft } : Node).reserve (client, request) admission), effects) := by
  obtain ⟨-, leads, log, continues⟩ := proposeCommand_continues proposed
  have index : raft.lastIndex = (node.entryFor command envelope).index := lastIndex_append raft log
  obtain ⟨stays, placed, -⟩ := @Placed.submitted node ledger effects raft command envelope
    ⟨client, request, node.entryFor command envelope, admission.reservation, admission.positiveDelta⟩
    booked.toPlaced rfl proposed
  rw [stays]
  have held : (({ node with raft } : Node).reserve (client, request) admission).raft.role = .leader := leads
  rw [dropRoutes_leader held]
  refine .busy { toPlaced := placed, known := ?_ } idle (.of_extends continues.grows)
  intro place route routed
  simp only [reserve] at routed
  rw [Std.ExtTreeMap.getElem?_insert] at routed
  split at routed
  next here =>
    refine ⟨_, List.mem_append_right _ List.mem_cons_self, ?_, Option.some.inj routed⟩
    rw [← index]
    exact Std.LawfulEqCmp.eq_of_compare here
  next =>
    obtain ⟨ticket, member, same⟩ := booked.known place route routed
    exact ⟨ticket, List.mem_append_left _ member, same⟩

section Publication
variable {current : PreparedCommittedEntry} {pending : List PreparedCommittedEntry}
  {deferred remaining : List RaftEffect} {entry : Entry} {links : List Link} {ticket : Ticket}

theorem Awaited.first (held : node.continuation = some (.store ⟨current, pending, deferred, remaining⟩))
    (awaited : Awaited ledger node) : ∃ entry carried links, links.map Prod.snd = pending ∧
      carryEntry node.config.policy node.working entry = .ok carried ∧
      Continues node.raft current.postEffects current.next.raft ∧
      (∀ answer, preparedAnswer current = some answer → carried.clientReply = some answer.reply) ∧
      Chained node.config.policy current.next links ∧
      Owed ledger node.routes.client ((entry, current) :: links) ∧
      Handed ledger node.raft (deferred ++ remaining) := by
  unfold Awaited at awaited
  rw [held] at awaited
  obtain ⟨handed, links, shape, chained, owed⟩ := awaited
  cases chained with
  | nil => cases shape
  | @cons _ entry prepared carried links carries raft post reply rest =>
    rw [List.map_cons] at shape
    obtain ⟨rfl, shape⟩ := List.cons.inj shape
    have continues := Continues.carryEntry carries
    rw [← post, ← raft] at continues
    exact ⟨entry, carried, links, shape, carries, continues, reply, rest, owed, handed⟩

theorem Owed.tail {client : BTreeMap Nat (ClientId × Nat)} {link : Link}
    (owed : Owed ledger client (link :: links)) : Owed ledger client links where
  ticket other member := owed.ticket other (List.mem_cons_of_mem _ member)
  unrouted other member := owed.unrouted other (List.mem_cons_of_mem _ member)
  distinct := by
    have distinct := owed.distinct
    rw [List.filter_cons] at distinct
    split at distinct
    · exact (List.nodup_cons.mp distinct).2
    · exact distinct

theorem Owed.void (client : BTreeMap Nat (ClientId × Nat))
    (silent : ∀ link ∈ links, preparedAnswer link.2 = none) : Owed [] client links where
  ticket link member answer answers := by
    rw [silent link member] at answers
    cases answers
  unrouted link member answered := by
    unfold Link.answered at answered
    rw [silent link member] at answered
    cases answered
  distinct := by
    have none : links.filter Link.answered = [] := by
      rw [List.filter_eq_nil_iff]
      intro link member answered
      unfold Link.answered at answered
      rw [silent link member] at answered
      cases answered
    rw [none]
    exact List.nodup_nil

theorem Owed.erase {client : BTreeMap Nat (ClientId × Nat)} (owed : Owed ledger client ((entry, current) :: links))
    (answered : (preparedAnswer current).isSome) (same : ticket.entry = entry) :
    Owed (ledger.erase ticket) client links where
  ticket other member answer answers := by
    obtain ⟨own, held, place, route⟩ := owed.ticket other (List.mem_cons_of_mem _ member) answer answers
    refine ⟨own, (List.mem_erase_of_ne ?_).mpr held, place, route⟩
    rintro rfl
    have distinct := owed.distinct
    rw [List.filter_cons_of_pos (show Link.answered (entry, current) = true from answered), List.map_cons,
      List.nodup_cons] at distinct
    apply distinct.1
    have replies : Link.answered other = true := by
      unfold Link.answered
      rw [answers]
      rfl
    refine List.mem_map.mpr ⟨other, List.mem_filter.mpr ⟨member, replies⟩, ?_⟩
    rw [← place, same]
  unrouted := owed.tail.unrouted
  distinct := owed.tail.distinct

theorem Booked.erase (booked : Booked ledger node) (unrouted : node.routes.client[ticket.entry.index]? = none) :
    Booked (ledger.erase ticket) node where
  tracked := booked.tracked
  known index route held := by
    obtain ⟨own, member, place, same⟩ := booked.known index route held
    refine ⟨own, (List.mem_erase_of_ne ?_).mpr member, place, same⟩
    rintro rfl
    rw [place, held] at unrouted
    cases unrouted
  placed other member := booked.placed other (List.mem_of_mem_erase member)
  distinct := booked.distinct.sublist (List.erase_sublist.map _)

theorem Handed.erase {raft : RaftNode} (handed : Handed ledger raft effects) :
    Handed (ledger.erase ticket) raft effects := by
  intro booked
  apply handed
  rintro rfl
  exact booked rfl

/-- The ledger goes with a head step, and its replies take their tickets out. -/
def Follows (ledger : List Ticket) (node : Node) (label : Label) (next : Node) (effects : List RaftEffect) : Prop :=
  InHand ((ledger ++ label.ticket.toList).filter (inOffice next.raft)) (next, effects) ∧
  ∀ answer ∈ label.answers, ∃ ticket ∈ ledger, Settles node ticket answer ∧
    InHand ((ledger.erase ticket).filter (inOffice next.raft)) (next, effects)

theorem Follows.quiet (hand : InHand (ledger.filter (inOffice next.raft)) (next, effects)) :
    Follows ledger node .quiet next effects := by
  refine ⟨?_, fun _ member => absurd member List.not_mem_nil⟩
  change InHand ((ledger ++ []).filter (inOffice next.raft)) (next, effects)
  rw [List.append_nil]
  exact hand

theorem Follows.published {carried : Carried} (booked : Booked ledger node)
    (carries : carryEntry node.config.policy node.working entry = .ok carried)
    (continues : Continues node.raft current.postEffects current.next.raft)
    (reply : ∀ answer, preparedAnswer current = some answer → carried.clientReply = some answer.reply)
    (owed : Owed ledger node.routes.client ((entry, current) :: links))
    (handed : Handed ledger node.raft (deferred ++ remaining)) (raft : next.raft = current.next.raft)
    (going : current.next.raft.role = .leader → ∀ part, Booked part node →
      Owed part node.routes.client links → Handed part node.raft (deferred ++ remaining) →
      InHand part (next, effects)) (ending : current.next.raft.role ≠ .leader → InHand [] (next, effects)) :
    Follows ledger node (.published (preparedAnswer current)) next effects := by
  unfold Follows
  have settles (answer : Answer) (answers : preparedAnswer current = some answer) :
      ∃ ticket ∈ ledger, Settles node ticket answer ∧ ticket.entry = entry := by
    obtain ⟨ticket, held, same, client, request⟩ := owed.ticket _ List.mem_cons_self answer answers
    have same : ticket.entry = entry := same
    refine ⟨ticket, held,
      ⟨client, request, (booked.placed ticket held).1, carried, ?_, reply answer answers⟩, same⟩
    rw [same]
    exact carries
  have answered (answer : Answer) (member : answer ∈ (Label.published (preparedAnswer current)).answers) :
      preparedAnswer current = some answer := by
    cases answers : preparedAnswer current with
    | none =>
      rw [answers] at member
      cases member
    | some given =>
      rw [answers] at member
      rw [List.mem_singleton.mp member]
  rw [show (Label.published (preparedAnswer current)).ticket.toList = [] from rfl, List.append_nil, raft]
  by_cases leads : current.next.raft.role = .leader
  · refine ⟨?_, fun answer member => ?_⟩
    · rw [booked.filter continues.serves leads]
      exact going leads ledger booked owed.tail handed
    · obtain ⟨ticket, held, settled, same⟩ := settles answer (answered answer member)
      have replies : (preparedAnswer current).isSome := by
        rw [answered answer member]
        rfl
      have unrouted : node.routes.client[ticket.entry.index]? = none := by
        rw [same]
        exact owed.unrouted _ List.mem_cons_self replies
      refine ⟨ticket, held, settled, ?_⟩
      rw [(booked.erase unrouted).filter continues.serves leads]
      exact going leads _ (booked.erase unrouted) (owed.erase replies same) handed.erase
  · simp only [inOffice_away leads]
    refine ⟨ending leads, fun answer member => ?_⟩
    obtain ⟨ticket, held, settled, -⟩ := settles answer (answered answer member)
    exact ⟨ticket, held, settled, ending leads⟩

theorem settle_away (away : node.raft.role ≠ .leader) (index : Nat) : node.settle.routes.client[index]? = none := by
  unfold settle
  rw [if_neg away]
  simp

theorem settle_leader (leads : node.raft.role = .leader) : node.settle = node := if_pos leads

theorem settle_raft (node : Node) : node.settle.raft = node.raft := by
  unfold settle
  split <;> rfl

theorem publishEntry_client (node : Node) (current : PreparedCommittedEntry) :
    (node.publishEntry current).routes.client = node.routes.client := by
  unfold publishEntry
  dsimp only
  split <;> rfl

theorem Follows.publish {following : PreparedCommittedEntry} {event : Event} (booked : Booked ledger node)
    (awaited : Awaited ledger node) (steady : node.steady event = true) (durable : event = .input (.persisted true))
    (held : node.continuation = some (.store ⟨current, following :: pending, deferred, remaining⟩)) :
    Follows ledger node (.published (preparedAnswer current))
      ((({ node with continuation := none } : Node).publishEntry current).await
        (.store ⟨following, pending, deferred ++ current.postEffects, remaining⟩)).settle [] := by
  obtain ⟨entry, carried, links, shape, carries, continues, reply, chained, owed, handed⟩ := awaited.first held
  apply Follows.published booked carries continues reply owed handed
  · rw [settle_raft]
    rfl
  · intro leads part booked owed handed
    rw [settle_leader (by exact leads)]
    refine .done (booked.carry (booked.continues continues leads) fun index route => ?_) ?_
    · simp only [await, publishEntry_client]
      exact id
    · refine ⟨handed.grows continues.grows, links, shape, chained, ?_⟩
      simp only [await, publishEntry_client]
      exact owed
  · intro away
    -- the routes go with the office, and by the condition no reply is left behind
    have silent : ∀ link ∈ links, preparedAnswer link.2 = none := by
      subst durable
      simp only [Node.steady, Node.calm, held, Event.heard, Option.all_none, Bool.true_and, away, decide_false,
        Bool.false_or, List.all_eq_true, Option.isNone_iff_eq_none] at steady
      intro link member
      exact steady link.2 (shape ▸ List.mem_map_of_mem member)
    refine .done (.empty ?_ (settle_away (by exact away))) ?_
    · rw [settle_raft]
      exact continues.tracked booked.tracked
    · unfold Awaited settle
      rw [if_neg (by exact away)]
      exact ⟨.void _ _, links, shape, chained, .void _ silent⟩

theorem Follows.finish (booked : Booked ledger node) (awaited : Awaited ledger node)
    (held : node.continuation = some (.store ⟨current, [], deferred, remaining⟩)) :
    Follows ledger node (.published (preparedAnswer current))
      (dropRoutes (({ node with continuation := none } : Node).publishEntry current))
      (deferred ++ current.postEffects ++ remaining) := by
  obtain ⟨entry, carried, links, shape, carries, continues, reply, chained, owed, handed⟩ := awaited.first held
  apply Follows.published booked carries continues reply owed handed
  · rw [dropRoutes_raft]
    rfl
  · intro leads part booked owed handed
    rw [dropRoutes_leader (by exact leads)]
    refine .busy (booked.carry (booked.continues continues leads) fun index route => ?_) rfl
      (handed.grows continues.grows)
    rw [publishEntry_client]
    exact id
  · intro away
    refine .busy (.empty ?_ (dropRoutes_away (by exact away))) ?_ (.void _ _)
    · rw [dropRoutes_raft]
      exact continues.tracked booked.tracked
    · rw [dropRoutes_continuation]
      rfl

end Publication

theorem Head.follows {event : Event} {label : Label} (head : Head node event label next effects)
    (booked : Booked ledger node) (awaited : Awaited ledger node) (steady : node.steady event = true) :
    Follows ledger node label next effects := by
  have stays (raft : next.raft = node.raft) : ledger.filter (inOffice next.raft) = ledger := by
    rw [raft]
    exact List.filter_eq_self.mpr fun ticket member => (booked.placed ticket member).1
  cases head with
  | rest same =>
    apply Follows.quiet
    rw [stays same.raft]
    exact (InHand.done booked awaited).fewer same.raft same.kv same.sessions same.config same.continuation
      fun _ _ held => same.client ▸ held
  | call call idle source same =>
    apply Follows.quiet
    rw [same.raft, dropRoutes_raft]
    exact (booked.called idle call (calm_call (steady_calm steady) source)).fewer same.raft same.kv same.sessions
      same.config same.continuation fun _ _ held => same.client ▸ held
  | submit client request idle leads proposed =>
    refine ⟨?_, fun _ member => absurd member List.not_mem_nil⟩
    rw [dropRoutes_raft]
    exact booked.submitted client request idle proposed
  | resume held =>
    apply Follows.quiet
    rw [stays (dropRoutes_raft _)]
    refine .busy (booked.fewer (dropRoutes_raft _) (dropRoutes_fewer _)) ?_ ?_
    · rw [dropRoutes_continuation]
    · unfold Awaited at awaited
      rw [held] at awaited
      rw [dropRoutes_raft]
      exact awaited
  | publish durable held => exact .publish booked awaited steady durable held
  | finish durable held => exact .finish booked awaited held
  | drop =>
    apply Follows.quiet
    rw [stays rfl]
    exact .done (booked.fewer rfl fun _ _ held => held) trivial

theorem InHand.awaited (hand : InHand ledger (node, [])) : Awaited ledger node := by
  cases hand with
  | busy _ idle =>
    unfold Awaited
    rw [idle]
    trivial
  | done _ awaited => exact awaited

theorem Booked.honest {events : List Event} (booked : Booked ledger node) (awaited : Awaited ledger node)
    (steady : node.steadyAll events = true) : Honest ledger node events := by
  induction events generalizing node ledger with
  | nil => trivial
  | cons event events ih =>
    simp only [steadyAll, Bool.and_eq_true] at steady
    obtain ⟨label, middle, effects, head, tails, ticket, answers⟩ := node.perform_splits event
    obtain ⟨kept, settled⟩ := head.follows booked awaited steady.1
    -- the rest of the event changes neither the role nor the term
    have office : inOffice (node.perform event).1.raft = inOffice middle.raft := by
      obtain ⟨-, role, term⟩ := tails.keeps kept
      exact inOffice_congr role term
    have onward {part : List Ticket} (hand : InHand (part.filter (inOffice middle.raft)) (middle, effects)) :
        Honest (part.filter (inOffice (node.perform event).1.raft)) (node.perform event).1 events := by
      obtain ⟨last, -⟩ := tails.keeps hand
      rw [office]
      exact ih last.booked last.awaited steady.2
    rw [ticket] at kept
    have shown : clientAnswers ((node.perform event).2.toOption.getD []) = [] ∨
        clientAnswers ((node.perform event).2.toOption.getD []) = label.answers := by
      cases output : (node.perform event).2 with
      | error halt => exact .inl rfl
      | ok out => exact .inr (answers out output)
    unfold Honest
    dsimp only
    rcases shown with none | some
    · rw [none]
      exact onward kept
    rw [some]
    cases label with
    | quiet | admitted _ => exact onward kept
    | published answer =>
      cases answer with
      | none => exact onward kept
      | some answer =>
        obtain ⟨own, member, settles, hand⟩ := settled answer List.mem_cons_self
        refine ⟨own, member, settles, ?_⟩
        have none : (node.admitted event).toList = [] := by
          rw [← ticket]
          rfl
        rw [none, List.append_nil]
        exact onward hand

structure Fresh (node : Node) : Prop where
  idle : node.continuation = none
  unrouted : ∀ index : Nat, node.routes.client[index]? = none
  tracked : node.raft.Tracked

/-- In a run whose events are steady every reply to a client settles an open ticket. -/
theorem client_replies_honest (fresh : Fresh node) {events : List Event} (steady : node.steadyAll events = true) :
    Honest [] node events := by
  refine Booked.honest (.empty fresh.tracked fresh.unrouted) ?_ steady
  unfold Awaited
  rw [fresh.idle]
  trivial

theorem new_fresh {config : NodeConfig} {voters : BTreeSet NodeId} (made : new config voters = .ok node) :
    Fresh node := by
  unfold new at made
  split at made
  · cases made
  · obtain rfl := Except.ok.inj made
    exact ⟨rfl, fun _ => by simp, ⟨trivial, le_rfl, le_rfl, le_rfl⟩⟩

def routedConfig : NodeConfig where
  id := 3
  clusterId := [1]
  seed := 3
  raft := .default
  store := .default
  policy := .default
  hostLimits := .default

def routedPeer (sender : NodeId) (term : Nat) (kind : MessageKind) : Event :=
  .input (.message { protoVersion := semanticVersionV3, sender, target := 3, term, kind })

def durable : Event := .input (.persisted true)

def aloneRun : List Event := [
  .input (.timer 10000000000 .election), durable, durable, durable,
  .input (.clientBytes 9 5 none (encodeCommand (.op (.set [1] [1] none))) 3), durable, durable]

theorem client_replies_honest_alone : ∃ node, new routedConfig (Std.ExtTreeSet.ofList [3] compare) = .ok node ∧
      clientAnswers (((node.after (aloneRun.take 6)).perform durable).2.toOption.getD []) =
        [⟨9, 5, .op .ok⟩] ∧
      Honest [] node aloneRun := by
  have facts : ((new routedConfig (Std.ExtTreeSet.ofList [3] compare)).toOption.map fun node =>
      (node.steadyAll aloneRun,
        clientAnswers (((node.after (aloneRun.take 6)).perform durable).2.toOption.getD []))) =
      some (true, [⟨9, 5, .op .ok⟩]) := by
    decide +kernel
  obtain ⟨node, found, shown⟩ := Option.map_eq_some_iff.mp facts
  have made := toOption_eq_some.mp found
  obtain ⟨steady, answers⟩ := Prod.mk.inj shown
  exact ⟨node, made, answers, client_replies_honest (new_fresh made) steady⟩

theorem Honest.away {events : List Event} {event : Event} (honest : Honest ledger node (events ++ [event]))
    (away : (node.after events).raft.role ≠ .leader) :
    clientAnswers (((node.after events).perform event).2.toOption.getD []) = [] := by
  induction events generalizing node ledger with
  | nil =>
    rw [List.nil_append] at honest
    simp only [Honest] at honest
    dsimp only [after, List.foldl_nil] at away ⊢
    split at honest
    next none => exact none
    next answer _ =>
      obtain ⟨ticket, -, settles, -⟩ := honest
      exact absurd (inOffice_leads settles.2.2.1) away
    next => cases honest
  | cons first rest ih =>
    rw [List.cons_append] at honest
    simp only [Honest] at honest
    split at honest
    · exact ih honest away
    · obtain ⟨ticket, -, -, later⟩ := honest
      exact ih later away
    · cases honest

/-- An earlier leader has begun a change to the voters 1 and 2, which elect node 3;
the change and a command commit together. -/
def departingRun : List Event := [
  routedPeer 1 1 (.appendReq
    { prevIndex := 0
      prevTerm := 0
      entries := [{ adminEntry 1
        { adminSession := some (operator, 1)
          leaderTime := 1
          operation := .enterJoint (Std.ExtTreeSet.ofList [1, 2] compare) } with term := 1 }]
      leaderCommit := 0
      readRound := 0 }), durable, durable,
  .input (.timer 10000000000 .election),
  routedPeer 1 2 (.preVoteResp true), routedPeer 2 2 (.preVoteResp true), durable,
  routedPeer 1 2 (.voteResp true), routedPeer 2 2 (.voteResp true), durable,
  .input (.clientBytes 9 5 none (encodeCommand (.op (.set [1] [1] none))) 3), durable,
  routedPeer 1 2 (.appendResp ⟨true, 3, none, 0, 0⟩), routedPeer 2 2 (.appendResp ⟨true, 3, none, 0, 0⟩),
  durable, durable]

/-- Applying the change makes the node follower; the reply to the command leaves after that. -/
theorem departed_leader_answers : ∃ node, new routedConfig (Std.ExtTreeSet.ofList [1, 2, 3] compare) = .ok node ∧
      (node.after departingRun).raft.role = .follower ∧
      clientAnswers (((node.after departingRun).perform durable).2.toOption.getD []) = [⟨9, 5, .op .ok⟩] ∧
      ¬ Honest [] node (departingRun ++ [durable]) := by
  have facts : ((new routedConfig (Std.ExtTreeSet.ofList [1, 2, 3] compare)).toOption.map fun node =>
      ((node.after departingRun).raft.role,
        clientAnswers (((node.after departingRun).perform durable).2.toOption.getD []))) =
      some (.follower, [⟨9, 5, .op .ok⟩]) := by
    decide +kernel
  obtain ⟨node, found, shown⟩ := Option.map_eq_some_iff.mp facts
  have made := toOption_eq_some.mp found
  obtain ⟨role, answers⟩ := Prod.mk.inj shown
  refine ⟨node, made, role, answers, fun honest => ?_⟩
  have silent := honest.away (by rw [role]; nofun)
  rw [answers] at silent
  cases silent

end Node
end CrashCourse.Cluster
