import CrashCourse.Cluster.Retries
import CrashCourse.Cluster.Tickets

/-!
What a leader has reserved for admitted commands, released when the record of an applied
entry is durable.
-/

namespace CrashCourse.Cluster
open CrashCourse.Core CrashCourse.KeyValue CrashCourse.Raft

def Synced (kv : Kv) : Prop :=
  (kv.store.appliedWatermark.map fun watermark => watermark.index).getD 0 = kv.appliedIndex

section Applied
variable {policy : ClusterPolicy} {working : Working} {entry : Entry} {carried : Carried}

theorem applyUser_state {σ : Type} {table next : SessionTable} {key : SessionKey} {sequence : Nat}
    {canonical : Bytes} {at_ : Nat} {mutate : σ → σ × Outcome KvReply} {state after : σ} {reply : KvReply}
    (done : table.applyUser policy key sequence canonical at_ mutate state = (next, after, .done reply)) :
    after = state ∨ ∃ given, mutate state = (after, .done given) := by
  cases ran : table.runs policy key sequence canonical at_ with
  | false =>
    have declined : ∃ next outcome, table.applyUser policy key sequence canonical at_ mutate state =
        (next, state, outcome) ∧ _ := SessionTable.applyUser_declined ran
    obtain ⟨left, outcome, same, -⟩ := declined
    rw [done] at same
    exact .inl (Prod.mk.inj (Prod.mk.inj same).2).1
  | true =>
    by_cases positive : sequence = 0
    · simp only [SessionTable.applyUser, positive, if_true] at done
      right
      rcases ran : mutate state with ⟨reached, outcome⟩
      rw [ran] at done
      obtain ⟨-, same⟩ := Prod.mk.inj done
      obtain ⟨rfl, rfl⟩ := Prod.mk.inj same
      exact ⟨reply, rfl⟩
    · rw [(SessionTable.applyUser_runs positive ran).2] at done
      right
      rcases mutated : mutate state with ⟨reached, given | error | _⟩
      all_goals rw [mutated] at done; dsimp only at done
      · split at done
        all_goals
          obtain ⟨rfl, -⟩ := Prod.mk.inj (Prod.mk.inj done).2
          exact ⟨given, rfl⟩
      · cases (Prod.mk.inj (Prod.mk.inj done).2).2
      · cases (Prod.mk.inj (Prod.mk.inj done).2).2

theorem applyCommandOnly_applied {kv next : Kv} {index term time : Nat} {command : KvCommand}
    {limits : BatchLimits} {reply : KvReply}
    (done : kv.applyCommandOnlyWithBatchLimits index term command time limits = (next, .done reply)) :
    next.appliedIndex = index := by
  unfold Kv.applyCommandOnlyWithBatchLimits at done
  dsimp only at done
  split at done
  · obtain ⟨rfl, -⟩ := Prod.mk.inj done
    rfl
  · obtain ⟨rfl, -⟩ := Prod.mk.inj done
    rfl
  · cases (Prod.mk.inj done).2

theorem applyProposal_applied {pinned : Option SessionKey} {kv next : Kv} {sessions left : SessionTable}
    {proposal : Proposal} {reply : KvReply} (behind : kv.appliedIndex < proposal.index)
    (done : applyProposal policy pinned kv sessions proposal = (next, left, .done reply)) :
    next.appliedIndex = proposal.index := by
  rw [applyProposal_eq] at done
  rcases requested : applyRequest policy kv sessions proposal with ⟨table, after, outcome⟩
  rw [requested] at done
  obtain ⟨same, rest⟩ := Prod.mk.inj done
  obtain ⟨-, rfl⟩ := Prod.mk.inj rest
  -- the command has moved the index, or was answered from the session and has left it
  have reached : after.appliedIndex = kv.appliedIndex ∨ after.appliedIndex = proposal.index := by
    unfold applyRequest at requested
    split at requested
    · rcases applyUser_state requested with rfl | ⟨given, ran⟩
      · exact .inl rfl
      · exact .inr (applyCommandOnly_applied ran)
    · rcases ran : proposal.mutate policy kv with ⟨moved, given⟩
      rw [ran] at requested
      obtain ⟨-, shape⟩ := Prod.mk.inj requested
      obtain ⟨rfl, rfl⟩ := Prod.mk.inj shape
      exact .inr (applyCommandOnly_applied ran)
  rw [← same]
  rcases reached with stays | moves
  · rw [if_pos (by omega)]
    rfl
  · rw [if_neg (by omega)]
    exact moves

theorem checkProposal_index {features : UInt64} {proposal : Proposal}
    (checked : checkProposal policy features entry = .ok proposal) : proposal.index = entry.index := by
  unfold checkProposal at checked
  simp only [bind, Except.bind, pure, Except.pure, fail] at checked
  repeat' split at checked
  all_goals cases checked
  rfl

theorem carryAdmin_kv {envelope : ConfigEnvelope} {session : SessionKey × Nat} {original : Bytes}
    {operationTag replyTag : UInt8} {result : AdminResultTag}
    (done : carryAdmin policy working entry envelope session original operationTag replyTag result =
      .ok carried) : carried.next.kv = working.kv := by
  unfold carryAdmin at done
  dsimp only at done
  split at done
  · cases done
  · obtain rfl := Except.ok.inj done
    rfl

theorem carryApp_applied (behind : working.kv.appliedIndex < entry.index)
    (done : carryApp policy working entry = .ok carried) : carried.next.kv.appliedIndex = entry.index := by
  unfold carryApp at done
  simp only [bind, Except.bind, pure, Except.pure] at done
  split at done
  · cases done
  next proposal checked =>
    have index : proposal.index = entry.index := checkProposal_index checked
    split at done
    · cases done
    · cases done
    next reply outcome =>
      obtain rfl := Except.ok.inj done
      rw [← index] at behind ⊢
      refine applyProposal_applied behind (Prod.ext rfl (Prod.ext rfl outcome))

theorem carryEntry_applied (behind : working.kv.appliedIndex < entry.index)
    (done : carryEntry policy working entry = .ok carried) : carried.next.kv.appliedIndex = entry.index := by
  have config (done : carryConfig policy working entry = .ok carried) :
      carried.next.kv.appliedIndex = entry.index := by
    cases decoded : ConfigEnvelope.decode entry.payload with
    | error error =>
      unfold carryConfig at done
      rw [decoded] at done
      cases done
    | ok envelope =>
      rcases carryConfig_cases decoded done with
        ⟨raft, effects, -, rfl⟩ | ⟨raft, effects, request, last, more, -, -, rfl⟩ |
        ⟨session, original, operationTag, replyTag, result, carries⟩
      · rfl
      · rfl
      · rw [carryAdmin_kv carries]
        rfl
  unfold carryEntry at done
  cases kind : entry.kind with
  | app | appV3 => rw [kind] at done; exact carryApp_applied behind done
  | config | configV3 => rw [kind] at done; exact config done
  | noop =>
    rw [kind] at done
    obtain rfl := Except.ok.inj done
    rfl

theorem applyBatch_watermark {store next : Store} {batch : StoreApplyBatch}
    (done : store.applyBatch batch = .ok next) : batch.watermark.index ≠ 0 ∧
      ∀ previous, store.appliedWatermark = some previous → previous.index < batch.watermark.index := by
  unfold Store.applyBatch at done
  split at done
  · cases done
  next valid =>
    unfold Store.validateApplyBatch at valid
    simp only [bind, Except.bind, pure, Except.pure, throw, throwThe, MonadExceptOf.throw] at valid
    split at valid
    · cases valid
    next positive =>
      split at valid
      · cases valid
      next ahead =>
        refine ⟨fun zero => positive (.inl zero), fun previous held => ?_⟩
        rw [held] at ahead
        simp only [Option.any_some, Bool.or_eq_true, decide_eq_true_eq, not_or, not_le] at ahead
        exact ahead.1

theorem sealEntry_applied {routes : ReplyRoutes} {prepared : PreparedCommittedEntry} (synced : Synced working.kv)
    (carries : carryEntry policy working entry = .ok carried)
    (done : sealEntry routes working entry carried = .ok prepared) :
    working.kv.appliedIndex < entry.index ∧ prepared.next.kv.appliedIndex = entry.index ∧
      Synced prepared.next.kv := by
  obtain ⟨-, walFrame, kv, prepares, rfl⟩ := sealEntry_ok_iff.mp done
  obtain ⟨next, applied, -, rfl⟩ := Kv.prepareApply_ok prepares
  obtain ⟨positive, ahead⟩ := applyBatch_watermark applied
  have marked := (Store.applyBatch_ok applied).2.2
  have behind : working.kv.appliedIndex < entry.index := by
    unfold Synced at synced
    rw [← synced]
    cases held : working.kv.store.appliedWatermark with
    | none => exact Nat.pos_of_ne_zero positive
    | some previous => exact ahead previous held
  have reached := carryEntry_applied behind carries
  refine ⟨behind, reached, ?_⟩
  unfold Synced Kv.withStore
  dsimp only
  rw [marked, reached]
  rfl

end Applied
/-- The prepared entries, each ahead of the one before and not ahead of Raft. -/
inductive Linked : Working → List PreparedCommittedEntry → Prop
  | nil (working : Working) : Linked working []
  | cons {working : Working} {prepared : PreparedCommittedEntry} {rest : List PreparedCommittedEntry}
      (continues : Continues working.raft prepared.postEffects prepared.next.raft)
      (ahead : working.kv.appliedIndex ≤ prepared.next.kv.appliedIndex)
      (synced : Synced prepared.next.kv) (behind : prepared.next.kv.appliedIndex ≤ working.raft.appliedIndex)
      (others : Linked prepared.next rest) : Linked working (prepared :: rest)

theorem prepareCommittedEntries_linked {policy : ClusterPolicy} {routes left : ReplyRoutes} {working : Working}
    {entries : List Entry} {prepared : List PreparedCommittedEntry} (tracked : working.raft.Tracked)
    (synced : Synced working.kv) (reached : ∀ entry ∈ entries, entry.index ≤ working.raft.appliedIndex)
    (done : prepareCommittedEntries policy routes working entries = (left, .ok prepared)) :
    Linked working prepared := by
  induction entries generalizing routes working prepared with
  | nil =>
    obtain rfl := Except.ok.inj (Prod.mk.inj done).2
    exact .nil working
  | cons entry rest ih =>
    obtain ⟨carried, first, others, carries, sealed, prepares, rfl⟩ := prepareCommittedEntries_cons done
    obtain ⟨raft, post, -⟩ := Node.sealEntry_ok sealed
    obtain ⟨ahead, index, stays⟩ := sealEntry_applied synced carries sealed
    have continues := Continues.carryEntry carries
    rw [← raft, ← post] at continues
    refine .cons continues (index ▸ ahead.le) stays ?_ (ih (continues.tracked tracked) stays ?_ prepares)
    · rw [index]
      exact reached entry List.mem_cons_self
    · intro other member
      exact (reached other (List.mem_cons_of_mem _ member)).trans (continues.applied tracked)

def Node.Ticket.sessionShare (ticket : Node.Ticket) : Option SessionReservation :=
  if ticket.reservation = ⟨0, false⟩ then none else some ticket.reservation

def Node.Ticket.logicalShare (ticket : Node.Ticket) : Option Nat :=
  if ticket.positiveDelta = 0 then none else some ticket.positiveDelta

def Covers {α : Type} (held : BTreeMap Nat α) (share : Node.Ticket → Option α) (ledger : List Node.Ticket)
    (applied : Nat) : Prop :=
  ∀ index value, held[index]? = some value ↔
    ∃ ticket ∈ ledger, ticket.entry.index = index ∧ applied < index ∧ share ticket = some value

section Shares
variable {α : Type} {held : BTreeMap Nat α} {share : Node.Ticket → Option α} {ledger : List Node.Ticket}
  {applied : Nat}

theorem Covers.empty (share : Node.Ticket → Option α) (applied : Nat) :
    Covers (∅ : BTreeMap Nat α) share [] applied := by
  intro index value
  simp

theorem Covers.void (covers : Covers held share ledger applied)
    (passed : ∀ ticket ∈ ledger, ticket.entry.index ≤ applied) : held = ∅ := by
  apply Std.ExtTreeMap.ext_getElem?
  intro index
  cases found : held[index]? with
  | none => simp
  | some value =>
    obtain ⟨ticket, member, rfl, above, -⟩ := (covers index value).mp found
    exact absurd above (passed ticket member).not_gt

theorem Covers.filter (covers : Covers held share [] applied) (keep : Nat → α → Bool) :
    Covers (held.filter keep) share [] applied := by
  intro index value
  constructor
  · intro found
    rw [Std.ExtTreeMap.getElem?_filter'] at found
    exact (covers index value).mp (Option.filter_eq_some_iff.mp found).1
  · rintro ⟨ticket, member, -⟩
    cases member

theorem Covers.submit {ticket : Node.Ticket} (covers : Covers held share ledger applied)
    (above : applied < ticket.entry.index) (fresh : ∀ other ∈ ledger, other.entry.index < ticket.entry.index) :
    Covers ((share ticket).elim held fun value => held.insert ticket.entry.index value) share
      (ledger ++ [ticket]) applied := by
  intro index value
  have split : (∃ other ∈ ledger ++ [ticket], other.entry.index = index ∧ applied < index ∧
      share other = some value) ↔ held[index]? = some value ∨
        (ticket.entry.index = index ∧ share ticket = some value) := by
    rw [covers index value]
    constructor
    · rintro ⟨other, member, rfl, high, shared⟩
      rcases List.mem_append.mp member with old | new
      · exact .inl ⟨other, old, rfl, high, shared⟩
      · obtain rfl := List.mem_singleton.mp new
        exact .inr ⟨rfl, shared⟩
    · rintro (⟨other, old, rest⟩ | ⟨rfl, shared⟩)
      · exact ⟨other, List.mem_append_left _ old, rest⟩
      · exact ⟨ticket, List.mem_append_right _ List.mem_cons_self, rfl, above, shared⟩
  have free : held[ticket.entry.index]? = none := by
    cases found : held[ticket.entry.index]? with
    | none => rfl
    | some value =>
      obtain ⟨other, member, same, -⟩ := (covers _ value).mp found
      exact absurd same (fresh other member).ne
  rw [split]
  cases shared : share ticket with
  | none => simp
  | some own =>
    simp only [Option.elim_some, Std.ExtTreeMap.getElem?_insert, Option.some.injEq]
    by_cases here : ticket.entry.index = index
    · subst here
      simp [free]
    · simp [here]

theorem Covers.release {after place : Nat} (covers : Covers held share ledger applied) (onward : applied ≤ after)
    (exact_ : ∀ index, held[index]?.isSome → (index ≤ after ↔ index = place)) :
    Covers (held.erase place) share ledger after := by
  intro index value
  rw [Std.ExtTreeMap.getElem?_erase]
  constructor
  · intro found
    split at found
    · cases found
    next other =>
      have kept := exact_ index (by rw [found]; rfl)
      obtain ⟨ticket, member, same, -, shared⟩ := (covers index value).mp found
      refine ⟨ticket, member, same, ?_, shared⟩
      by_contra low
      have here := kept.mp (not_lt.mp low)
      rw [here] at other
      exact other Std.ReflCmp.compare_self
  · rintro ⟨ticket, member, same, high, shared⟩
    have found := (covers index value).mpr ⟨ticket, member, same, by omega, shared⟩
    rw [if_neg, found]
    intro here
    have place := Std.LawfulEqCmp.eq_of_compare here
    have low := (exact_ index (by rw [found]; rfl)).mpr place.symm
    omega

end Shares

namespace Node
variable {node next : Node} {ledger : List Ticket} {effects : List RaftEffect}

structure Accounted (ledger : List Ticket) (node : Node) : Prop where
  session : Covers node.sessionReservations Ticket.sessionShare ledger node.kv.appliedIndex
  logical : Covers node.logicalReservations Ticket.logicalShare ledger node.kv.appliedIndex

/-- After every completed write the reservations are those of the commands that the
present leadership has admitted and not applied. -/
def Balanced (ledger : List Ticket) (node : Node) : List Event → Prop
  | [] => True
  | event :: events =>
    let after := (node.perform event).1
    let taken := (ledger ++ (node.admitted event).toList).filter (inOffice after.raft)
    (event = .input (.persisted true) → (node.perform event).2.isOk = true →
      Accounted taken after ∧
        ((∀ ticket ∈ taken, ticket.entry.index ≤ after.kv.appliedIndex) →
          after.sessionReservations = ∅ ∧ after.logicalReservations = ∅)) ∧
    Balanced taken after events

def holdsNothing (node : Node) : Bool := node.sessionReservations.isEmpty && node.logicalReservations.isEmpty

/-- The one index that is released is the one reserved index that the entry reaches. -/
def releases (node : Node) (prepared : PreparedCommittedEntry) : Bool :=
  (node.sessionReservations.keys ++ node.logicalReservations.keys).all fun index =>
    decide (index ≤ prepared.next.kv.appliedIndex) == decide (index = prepared.next.raft.appliedIndex)

/-- The leader does not stand again; a node that could be elected holds no
reservations of an earlier leadership; a publication releases what its entry reaches. -/
def orderly (node : Node) (event : Event) : Bool :=
  node.calm event &&
    (decide (node.raft.role = .leader) || node.holdsNothing ||
      (decide (node.raft.role ≠ .candidate) && !node.raft.voters.contains node.raft.id)) &&
    match event, node.continuation with
    | .input (.persisted true), some (.store state) => node.releases state.current
    | _, _ => true

def orderlyAll (node : Node) : List Event → Bool
  | [] => true
  | event :: events => node.orderly event && (node.perform event).1.orderlyAll events

structure Tallied (ledger : List Ticket) (node : Node) : Prop extends Placed ledger node.raft where
  synced : Synced node.kv
  behind : node.kv.appliedIndex ≤ node.raft.appliedIndex
  accounts : node.raft.role = .leader → Accounted ledger node

/-- The effects are those of the leadership of the tickets, and Raft is past their entries. -/
structure Sent (ledger : List Ticket) (raft : RaftNode) (effects : List RaftEffect) : Prop where
  handed : Handed ledger raft effects
  reached : Reached raft effects

def Waits (ledger : List Ticket) (node : Node) : Prop :=
  match node.continuation with
  | none => True
  | some (.raft effects) => Sent ledger node.raft effects
  | some (.store state) => Sent ledger node.raft (state.deferred ++ state.remaining) ∧
      Linked node.working (state.current :: state.pending)

inductive OnHand (ledger : List Ticket) : Node × List RaftEffect → Prop
  | busy {node : Node} {effects : List RaftEffect} (tallied : Tallied ledger node)
      (idle : node.continuation = none) (sent : Sent ledger node.raft effects) : OnHand ledger (node, effects)
  | done {node : Node} (tallied : Tallied ledger node) (waits : Waits ledger node) : OnHand ledger (node, [])

theorem Sent.nil (ledger : List Ticket) (raft : RaftNode) : Sent ledger raft [] :=
  ⟨.nil ledger raft, fun _ member => absurd member List.not_mem_nil⟩

theorem Sent.rest {raft : RaftNode} {effect : RaftEffect} {rest : List RaftEffect}
    (sent : Sent ledger raft (effect :: rest)) : Sent ledger raft rest where
  handed := sent.handed.rest
  reached entry member := by
    apply sent.reached entry
    cases effect <;> first | exact member | exact List.mem_append_right _ member

theorem Sent.of_continues {raft after : RaftNode} (tracked : raft.Tracked)
    (continues : Continues raft effects after) : Sent ledger after effects :=
  ⟨.of_extends continues.grows, continues.reached tracked⟩

theorem Sent.grows {raft after : RaftNode} {first second rest : List RaftEffect} (tracked : raft.Tracked)
    (sent : Sent ledger raft (first ++ rest)) (continues : Continues raft second after) :
    Sent ledger after (first ++ second ++ rest) where
  handed := sent.handed.grows continues.grows
  reached entry member := by
    have onward := continues.applied tracked
    simp only [appliedBy_append, List.mem_append] at member
    have early := sent.reached entry
    simp only [appliedBy_append, List.mem_append] at early
    rcases member with (old | new) | old
    · exact (early (.inl old)).trans onward
    · exact continues.reached tracked entry new
    · exact (early (.inr old)).trans onward

theorem OnHand.tallied (hand : OnHand ledger (node, effects)) : Tallied ledger node := by
  cases hand with
  | busy tallied => exact tallied
  | done tallied => exact tallied

theorem OnHand.sent (hand : OnHand ledger (node, effects)) : Sent ledger node.raft effects := by
  cases hand with
  | busy _ _ sent => exact sent
  | done => exact .nil ledger _

theorem OnHand.idle {effect : RaftEffect} {rest : List RaftEffect}
    (hand : OnHand ledger (node, effect :: rest)) : node.continuation = none := by
  cases hand with
  | busy _ idle => exact idle

theorem OnHand.waits (hand : OnHand ledger (node, [])) : Waits ledger node := by
  cases hand with
  | busy _ idle =>
    unfold Waits
    rw [idle]
    trivial
  | done _ waits => exact waits

structure SameAccounts (before after : Node) : Prop where
  raft : after.raft = before.raft
  kv : after.kv = before.kv
  sessionReservations : after.sessionReservations = before.sessionReservations
  logicalReservations : after.logicalReservations = before.logicalReservations

theorem Accounted.same (accounted : Accounted ledger node) (kv : next.kv = node.kv)
    (session : next.sessionReservations = node.sessionReservations)
    (logical : next.logicalReservations = node.logicalReservations) : Accounted ledger next := by
  constructor
  · rw [kv, session]
    exact accounted.session
  · rw [kv, logical]
    exact accounted.logical

theorem Tallied.same (tallied : Tallied ledger node) (same : SameAccounts node next) : Tallied ledger next where
  toPlaced := same.raft ▸ tallied.toPlaced
  synced := same.kv ▸ tallied.synced
  behind := by
    rw [same.kv, same.raft]
    exact tallied.behind
  accounts leads := (tallied.accounts (same.raft ▸ leads)).same same.kv same.sessionReservations
    same.logicalReservations

theorem Waits.same (waits : Waits ledger node) (same : SameBooks node next) : Waits ledger next := by
  unfold Waits working at waits ⊢
  rw [same.continuation, same.raft, same.kv, same.sessions]
  exact waits

theorem Tallied.continues {raft : RaftNode} (tallied : Tallied ledger node)
    (continues : Continues node.raft effects raft) (led : node.raft.role = .leader) (leads : raft.role = .leader) :
    Tallied ledger { node with raft } where
  toPlaced := tallied.toPlaced.continues continues leads
  synced := tallied.synced
  behind := tallied.behind.trans (continues.applied tallied.tracked)
  accounts _ := (tallied.accounts led).same rfl rfl rfl

theorem Tallied.asked (tallied : Tallied ledger node) :
    Tallied ledger { node with raft := node.raft.requestRead.1 } := by
  obtain ⟨role, -, -, applied⟩ := requestRead_continues node.raft
  exact
    { toPlaced := tallied.toPlaced.asked
      synced := tallied.synced
      behind := tallied.behind.trans applied.ge
      accounts := fun leads => (tallied.accounts (role.symm.trans leads)).same rfl rfl rfl }

theorem OnHand.store {entries : List Entry} {rest : List RaftEffect} {routes : ReplyRoutes}
    {current : PreparedCommittedEntry} {pending : List PreparedCommittedEntry}
    (hand : OnHand ledger (node, .apply entries :: rest))
    (prepared : prepareCommittedEntries node.config.policy node.routes node.working entries =
      (routes, .ok (current :: pending))) :
    OnHand ledger (({ node with routes } : Node).await (.store ⟨current, pending, [], rest⟩), []) := by
  have tallied := hand.tallied
  refine .done (tallied.same ⟨rfl, rfl, rfl, rfl⟩) ⟨hand.sent.rest, ?_⟩
  exact prepareCommittedEntries_linked tallied.tracked tallied.synced
    (fun entry member => hand.sent.reached entry (List.mem_append_left _ member)) prepared

theorem OnHand.forgets {index : Nat} {rest : List RaftEffect}
    (hand : OnHand ledger (node, .truncateSuffix index :: rest)) : Tallied ledger (node.forgetSuffix index) := by
  have tallied := hand.tallied
  have none : ledger = [] := by
    by_contra some
    exact (hand.sent.handed some).2 index List.mem_cons_self
  refine { toPlaced := tallied.toPlaced, synced := tallied.synced, behind := tallied.behind, accounts := ?_ }
  intro leads
  have accounted := tallied.accounts leads
  subst none
  exact ⟨accounted.session.filter _, accounted.logical.filter _⟩

theorem settle_accounts (leads : node.raft.role = .leader → Accounted ledger node)
    (raft : node.settle.raft.role = .leader) : Accounted ledger node.settle := by
  rw [settle_raft] at raft
  rw [settle_leader raft]
  exact leads raft

theorem Tail.tallies {before after : Node × List RaftEffect} (tail : Tail before after)
    (hand : OnHand ledger before) : OnHand ledger after ∧ SameOffice before.1.raft after.1.raft := by
  have tallied := hand.tallied
  cases tail with
  | quiet same =>
    have moved := tallied.same ⟨same.raft, same.kv, same.sessionReservations, same.logicalReservations⟩
    refine ⟨?_, by rw [same.raft]; exact ⟨rfl, rfl⟩⟩
    cases hand with
    | busy _ idle sent =>
      rw [← same.raft] at sent
      exact .busy moved (same.continuation.trans idle) sent
    | done _ waits => exact .done moved (waits.same same)
  | pass => exact ⟨.busy tallied hand.idle hand.sent.rest, rfl, rfl⟩
  | @ask node effects idle =>
    obtain ⟨role, term, log, applied⟩ := requestRead_continues node.raft
    refine ⟨.busy tallied.asked idle ⟨?_, fun entry member => ?_⟩, role, term⟩
    · unfold Handed
      dsimp only
      rw [log]
      exact hand.sent.handed
    · exact (hand.sent.reached entry member).trans applied.ge
  | cut => exact ⟨.busy hand.forgets hand.idle hand.sent.rest, rfl, rfl⟩
  | skip idle prepared => exact ⟨.busy (tallied.same ⟨rfl, rfl, rfl, rfl⟩) idle hand.sent.rest, rfl, rfl⟩
  | hand prepared => exact ⟨hand.store prepared, rfl, rfl⟩
  | wait => exact ⟨.done (tallied.same ⟨rfl, rfl, rfl, rfl⟩) hand.sent, rfl, rfl⟩
  | @lose node effects routes fewer =>
    refine ⟨.done (tallied.same ⟨rfl, rfl, rfl, rfl⟩) ?_, rfl, rfl⟩
    cases hand with
    | busy _ idle =>
      unfold Waits
      dsimp only
      rw [idle]
      trivial
    | done _ waits => exact waits
  | sweep payload idle proposed =>
    obtain ⟨led, leads, log, continues⟩ := proposeWithKind_continues proposed
    exact ⟨.busy (tallied.continues continues led leads) idle (.of_continues tallied.tracked continues),
      leads.trans led.symm, continues.serves.term⟩
  | @settle node =>
    have raft := settle_raft node
    have same : node.settle.kv = node.kv ∧ node.settle.sessions = node.sessions := by
      unfold Node.settle
      split <;> exact ⟨rfl, rfl⟩
    have behind : node.settle.kv.appliedIndex ≤ node.settle.raft.appliedIndex := by
      rw [raft, same.1]
      exact tallied.behind
    refine ⟨.done ⟨raft ▸ tallied.toPlaced, same.1 ▸ tallied.synced, behind,
      settle_accounts tallied.accounts⟩ ?_, ?_⟩
    · have waits := hand.waits
      unfold Waits working at waits ⊢
      rw [settle_continuation, raft, same.1, same.2]
      exact waits
    · rw [raft]
      exact ⟨rfl, rfl⟩

theorem Tails.tallies {before after : Node × List RaftEffect} (tails : Tails before after)
    (hand : OnHand ledger before) : OnHand ledger after ∧ SameOffice before.1.raft after.1.raft := by
  induction tails with
  | refl => exact ⟨hand, rfl, rfl⟩
  | tail _ step ih =>
    obtain ⟨middle, role, term⟩ := ih
    obtain ⟨last, role', term'⟩ := step.tallies middle
    exact ⟨last, role'.trans role, term'.trans term⟩

theorem orderly_calm {event : Event} (orderly : node.orderly event = true) : node.calm event = true := by
  simp only [Node.orderly, Bool.and_eq_true] at orderly
  exact orderly.1.1

theorem Accounted.nothing (nothing : node.holdsNothing = true) : Accounted [] node := by
  simp only [holdsNothing, Bool.and_eq_true, Std.ExtTreeMap.isEmpty_iff] at nothing
  constructor
  · rw [nothing.1]
    exact .empty _ _
  · rw [nothing.2]
    exact .empty _ _

theorem Accounted.elected {event : Event} {call : Call} (orderly : node.orderly event = true)
    (led : node.raft.role ≠ .leader) (leads : (node.raft.call call).1.role = .leader) : Accounted [] node := by
  simp only [Node.orderly, Bool.and_eq_true, Bool.or_eq_true, decide_eq_true_eq, Bool.not_eq_true'] at orderly
  rcases orderly.1.2 with (inside | nothing) | outside
  · exact absurd inside led
  · exact .nothing nothing
  · have away : node.raft.Outside := ⟨led, outside.1, outside.2⟩
    exact absurd leads (away.call call)

theorem dropRoutes_accounts (node : Node) : SameAccounts node node.dropRoutes := by
  unfold dropRoutes
  split <;> exact ⟨rfl, rfl, rfl, rfl⟩

theorem Tallied.away (tracked : node.raft.Tracked) (synced : Synced node.kv)
    (behind : node.kv.appliedIndex ≤ node.raft.appliedIndex) (away : node.raft.role ≠ .leader) : Tallied [] node :=
  ⟨.empty tracked, synced, behind, fun leads => absurd leads away⟩

theorem Tallied.called {event : Event} (tallied : Tallied ledger node) (idle : node.continuation = none)
    (orderly : node.orderly event = true) {call : Call}
    (source : ∀ message now, call = .onMessageAt message now → event.heard = some (message, now)) :
    OnHand (ledger.filter (inOffice (node.raft.call call).1))
      (dropRoutes { node with raft := (node.raft.call call).1 }, (node.raft.call call).2) := by
  obtain ⟨tracked, onward, reached⟩ := Continues.call_advances node.raft call tallied.tracked
  have behind := tallied.behind.trans onward
  have laid (part : List Ticket) (handed : Handed part (node.raft.call call).1 (node.raft.call call).2)
      (moved : Tallied part { node with raft := (node.raft.call call).1 }) :
      OnHand part (dropRoutes { node with raft := (node.raft.call call).1 }, (node.raft.call call).2) := by
    refine .busy (moved.same (dropRoutes_accounts _)) ?_ ?_
    · rw [dropRoutes_continuation]
      exact idle
    · rw [dropRoutes_raft]
      exact ⟨handed, reached⟩
  by_cases leads : (node.raft.call call).1.role = .leader
  · by_cases led : node.raft.role = .leader
    · have serves := node.raft.call_serves call led (calm_call (orderly_calm orderly) source) leads
      have grows := node.raft.call_extends call leads
      rw [tallied.toPlaced.filter serves leads]
      exact laid ledger (.of_extends grows)
        ⟨tallied.toPlaced.carry tracked (tallied.toPlaced.office serves leads) fun _ member => grows.mem member,
          tallied.synced, behind, fun _ => (tallied.accounts led).same rfl rfl rfl⟩
    · obtain rfl := tallied.toPlaced.away led
      exact laid [] (.void _ _)
        ⟨.empty tracked, tallied.synced, behind, fun _ => (Accounted.elected orderly led leads).same rfl rfl rfl⟩
  · rw [inOffice_away leads]
    exact laid [] (.void _ _) (.away tracked tallied.synced behind leads)

theorem Tallied.submitted {raft : RaftNode} {command : KvCommand} {envelope : Bytes} {admission : Admission}
    (tallied : Tallied ledger node) (client : ClientId) (request : Nat) (idle : node.continuation = none)
    (proposed : node.proposeCommand command envelope = (raft, .ok effects)) :
    OnHand ((ledger ++ [Ticket.mk client request (node.entryFor command envelope) admission.reservation
        admission.positiveDelta]).filter (inOffice raft))
      (dropRoutes (({ node with raft } : Node).reserve (client, request) admission), effects) := by
  obtain ⟨led, leads, log, continues⟩ := proposeCommand_continues proposed
  have index : raft.lastIndex = (node.entryFor command envelope).index := lastIndex_append raft log
  obtain ⟨stays, placed, fresh⟩ := @Placed.submitted node ledger effects raft command envelope
    ⟨client, request, node.entryFor command envelope, admission.reservation, admission.positiveDelta⟩
    tallied.toPlaced rfl proposed
  have above : node.kv.appliedIndex < (node.entryFor command envelope).index := by
    have applied := tallied.tracked.applied
    have committed := tallied.tracked.committed
    have behind := tallied.behind
    simp only [entryFor]
    omega
  have accounted := tallied.accounts led
  rw [stays]
  have held : (({ node with raft } : Node).reserve (client, request) admission).raft.role = .leader := leads
  rw [dropRoutes_leader held]
  refine .busy ⟨placed, tallied.synced, tallied.behind.trans (continues.applied tallied.tracked), fun _ => ?_⟩
    idle (.of_continues tallied.tracked continues)
  have session := accounted.session.submit above fresh
  have logical := accounted.logical.submit above fresh
  simp only [Ticket.sessionShare, Ticket.logicalShare] at session logical
  constructor
  · simp only [reserve, index]
    split_ifs at session ⊢ <;> exact session
  · simp only [reserve, index]
    split_ifs at logical ⊢ <;> exact logical

section Publication
variable {current : PreparedCommittedEntry} {pending : List PreparedCommittedEntry}
  {deferred remaining : List RaftEffect}

theorem releases_reaches {α : Type} {held : BTreeMap Nat α} {keys : List Nat} {reached place : Nat}
    (released : keys.all (fun index => decide (index ≤ reached) == decide (index = place)) = true)
    (listed : ∀ index, index ∈ held.keys → index ∈ keys) :
    ∀ index, held[index]?.isSome → (index ≤ reached ↔ index = place) := by
  intro index found
  rw [Std.ExtTreeMap.isSome_getElem?_eq_contains, Std.ExtTreeMap.contains_iff_mem] at found
  have same := List.all_eq_true.mp released index (listed index (Std.ExtTreeMap.mem_keys.mpr found))
  simpa using same

theorem Accounted.published (accounted : Accounted ledger node)
    (ahead : node.kv.appliedIndex ≤ current.next.kv.appliedIndex) (released : node.releases current = true) :
    Accounted ledger (({ node with continuation := none } : Node).publishEntry current) where
  session := accounted.session.release ahead
    (releases_reaches released fun _ member => List.mem_append_left _ member)
  logical := accounted.logical.release ahead
    (releases_reaches released fun _ member => List.mem_append_right _ member)

theorem Tallied.published {event : Event} (tallied : Tallied ledger node)
    (linked : Linked node.working (current :: pending)) (orderly : node.orderly event = true)
    (durable : event = .input (.persisted true))
    (held : node.continuation = some (.store ⟨current, pending, deferred, remaining⟩)) :
    Tallied (ledger.filter (inOffice current.next.raft))
      (({ node with continuation := none } : Node).publishEntry current) := by
  cases linked with
  | cons continues ahead synced behind others =>
    have further := behind.trans (continues.applied tallied.tracked)
    by_cases leads : current.next.raft.role = .leader
    · have led : node.raft.role = .leader := by
        rcases continues.serves.role with same | gone
        · exact same.symm.trans leads
        · rw [gone] at leads
          cases leads
      have released : node.releases current = true := by
        subst durable
        simp only [Node.orderly, held, Bool.and_eq_true] at orderly
        exact orderly.2
      rw [tallied.toPlaced.filter continues.serves leads]
      exact ⟨tallied.toPlaced.continues continues leads, synced, further,
        fun _ => (tallied.accounts led).published ahead released⟩
    · rw [inOffice_away leads]
      exact .away (continues.tracked tallied.tracked) synced further leads

end Publication

theorem Waits.store {current : PreparedCommittedEntry} {pending : List PreparedCommittedEntry}
    {deferred remaining : List RaftEffect}
    (held : node.continuation = some (.store ⟨current, pending, deferred, remaining⟩)) (waits : Waits ledger node) :
    Sent ledger node.raft (deferred ++ remaining) ∧ Linked node.working (current :: pending) := by
  unfold Waits at waits
  rw [held] at waits
  exact waits

theorem Sent.published {current : PreparedCommittedEntry} {pending : List PreparedCommittedEntry}
    {deferred remaining : List RaftEffect} (tallied : Tallied ledger node)
    (linked : Linked node.working (current :: pending)) (sent : Sent ledger node.raft (deferred ++ remaining)) :
    Sent (ledger.filter (inOffice current.next.raft)) current.next.raft
      (deferred ++ current.postEffects ++ remaining) := by
  cases linked with
  | cons continues ahead synced behind others =>
    have grown := sent.grows tallied.tracked continues
    by_cases leads : current.next.raft.role = .leader
    · rw [tallied.toPlaced.filter continues.serves leads]
      exact grown
    · rw [inOffice_away leads]
      exact ⟨.void _ _, grown.reached⟩

theorem Head.tallies {event : Event} {label : Label} (head : Head node event label next effects)
    (tallied : Tallied ledger node) (waits : Waits ledger node) (orderly : node.orderly event = true) :
    OnHand ((ledger ++ label.ticket.toList).filter (inOffice next.raft)) (next, effects) := by
  have stays (raft : next.raft = node.raft) : (ledger ++ []).filter (inOffice next.raft) = ledger := by
    rw [raft, List.append_nil]
    exact List.filter_eq_self.mpr fun ticket member => (tallied.placed ticket member).1
  cases head with
  | rest same =>
    change OnHand ((ledger ++ []).filter (inOffice next.raft)) (next, [])
    rw [stays same.raft]
    exact ((Tail.quiet same).tallies (OnHand.done tallied waits)).1
  | call call idle source same =>
    change OnHand ((ledger ++ []).filter (inOffice next.raft)) (next, _)
    rw [List.append_nil, same.raft, dropRoutes_raft]
    exact ((Tail.quiet same).tallies (tallied.called idle orderly source)).1
  | submit client request idle leads proposed =>
    rw [dropRoutes_raft]
    exact tallied.submitted client request idle proposed
  | resume held =>
    unfold Waits at waits
    rw [held] at waits
    change OnHand ((ledger ++ []).filter (inOffice (dropRoutes { node with continuation := none }).raft)) _
    rw [stays (dropRoutes_raft _)]
    refine .busy (tallied.same ?_) ?_ ?_
    · obtain ⟨raft, kv, session, logical⟩ := dropRoutes_accounts { node with continuation := none }
      exact ⟨raft, kv, session, logical⟩
    · rw [dropRoutes_continuation]
    · rw [dropRoutes_raft]
      exact waits
  | @publish current following pending deferred remaining durable held =>
    obtain ⟨sent, linked⟩ := waits.store held
    have moved := tallied.published linked orderly durable held
    have gone := sent.published tallied linked
    change OnHand ((ledger ++ []).filter (inOffice _)) _
    rw [List.append_nil, settle_raft]
    cases linked with
    | cons continues ahead synced behind others =>
      have hand : OnHand (ledger.filter (inOffice current.next.raft))
          ((({ node with continuation := none } : Node).publishEntry current).await
            (.store ⟨following, pending, deferred ++ current.postEffects, remaining⟩), []) :=
        .done (moved.same ⟨rfl, rfl, rfl, rfl⟩) ⟨gone, others⟩
      exact (Tail.settle.tallies hand).1
  | @finish current deferred remaining durable held =>
    obtain ⟨sent, linked⟩ := waits.store held
    have moved := tallied.published linked orderly durable held
    have gone := sent.published tallied linked
    change OnHand ((ledger ++ []).filter (inOffice _)) _
    rw [List.append_nil, dropRoutes_raft]
    refine .busy (moved.same (dropRoutes_accounts _)) ?_ ?_
    · rw [dropRoutes_continuation]
      rfl
    · rw [dropRoutes_raft]
      exact gone
  | drop =>
    change OnHand ((ledger ++ []).filter (inOffice node.raft)) _
    rw [stays rfl]
    exact .done (tallied.same ⟨rfl, rfl, rfl, rfl⟩) trivial

theorem persisted_settled {event : Event} (persists : event = .input (.persisted true))
    (ok : (node.perform event).2.isOk = true) (away : (node.perform event).1.raft.role ≠ .leader) :
    Accounted [] (node.perform event).1 := by
  subst persists
  simp only [perform, onInput, Input.isPersisted, Bool.not_true, Bool.and_false, Bool.false_eq_true,
    if_false, handle] at ok away ⊢
  generalize node.persisted true = attempt at ok away ⊢
  obtain ⟨last, _ | out⟩ := attempt
  · cases ok
  · dsimp only at away ⊢
    rw [settle_raft] at away
    unfold settle
    rw [if_neg away]
    exact ⟨.empty _ _, .empty _ _⟩

theorem Tallied.balanced {events : List Event} (tallied : Tallied ledger node) (waits : Waits ledger node)
    (orderly : node.orderlyAll events = true) : Balanced ledger node events := by
  induction events generalizing node ledger with
  | nil => trivial
  | cons event events ih =>
    simp only [orderlyAll, Bool.and_eq_true] at orderly
    obtain ⟨label, middle, effects, head, tails, ticket, -⟩ := node.perform_splits event
    have hand := head.tallies tallied waits orderly.1
    obtain ⟨last, role, term⟩ := tails.tallies hand
    rw [← inOffice_congr role term, ticket] at last
    refine ⟨fun persists ok => ?_, ih last.tallied last.waits orderly.2⟩
    have accounted : Accounted ((ledger ++ (node.admitted event).toList).filter
        (inOffice (node.perform event).1.raft)) (node.perform event).1 := by
      by_cases leads : (node.perform event).1.raft.role = .leader
      · exact last.tallied.accounts leads
      · rw [inOffice_away leads]
        exact persisted_settled persists ok leads
    exact ⟨accounted, fun passed => ⟨accounted.session.void passed, accounted.logical.void passed⟩⟩

/-- A node that has just been made or recovered: nothing reserved, nothing pending. -/
structure Unburdened (node : Node) : Prop where
  idle : node.continuation = none
  nothing : node.holdsNothing = true
  tracked : node.raft.Tracked
  synced : Synced node.kv
  behind : node.kv.appliedIndex ≤ node.raft.appliedIndex

/-- In an orderly run the reservations after every completed write are those of the
commands admitted and not applied. -/
theorem reservations_balanced (start : Unburdened node) {events : List Event}
    (orderly : node.orderlyAll events = true) : Balanced [] node events := by
  refine Tallied.balanced ⟨.empty start.tracked, start.synced, start.behind, fun _ => .nothing start.nothing⟩ ?_
    orderly
  unfold Waits
  rw [start.idle]
  trivial

theorem new_unburdened {config : NodeConfig} {voters : BTreeSet NodeId} (made : new config voters = .ok node) :
    Unburdened node := by
  have fresh := new_fresh made
  unfold new at made
  split at made
  · cases made
  · obtain rfl := Except.ok.inj made
    exact ⟨rfl, rfl, fresh.tracked, rfl, le_rfl⟩

/-- Node 1 elects the leader, its first entry commits, and it takes two commands. -/
def pipelinedRun : List Event := [
  .input (.timer 10000000000 .election),
  routedPeer 1 1 (.preVoteResp true), durable,
  routedPeer 1 1 (.voteResp true), durable,
  routedPeer 1 1 (.appendResp ⟨true, 1, none, 0, 0⟩), durable,
  .input (.clientRequest 9 1 (.op (.set [1] [1] none)) 3), durable,
  .input (.clientRequest 9 2 (.op (.set [1] [2] none)) 3), durable]

def turnsRun : List Event := pipelinedRun ++ [
  routedPeer 1 1 (.appendResp ⟨true, 2, none, 0, 0⟩), durable,
  routedPeer 1 1 (.appendResp ⟨true, 3, none, 0, 0⟩), durable]

theorem reservations_balanced_turns : ∃ node, new routedConfig (Std.ExtTreeSet.ofList [1, 2, 3] compare) = .ok node ∧
      (node.after pipelinedRun).sessionReservations.keys = [2, 3] ∧
      (node.after turnsRun).sessionReservations.keys = [] ∧ Balanced [] node turnsRun := by
  have facts : ((new routedConfig (Std.ExtTreeSet.ofList [1, 2, 3] compare)).toOption.map fun node =>
      (node.orderlyAll turnsRun, (node.after pipelinedRun).sessionReservations.keys,
        (node.after turnsRun).sessionReservations.keys)) = some (true, [2, 3], []) := by
    decide +kernel
  obtain ⟨node, found, shown⟩ := Option.map_eq_some_iff.mp facts
  have made := toOption_eq_some.mp found
  obtain ⟨orderly, rest⟩ := Prod.mk.inj shown
  obtain ⟨held, released⟩ := Prod.mk.inj rest
  exact ⟨node, made, held, released, reservations_balanced (new_unburdened made) orderly⟩

def ledgerAfter (ledger : List Ticket) (node : Node) : List Event → List Ticket
  | [] => ledger
  | event :: events =>
    ledgerAfter ((ledger ++ (node.admitted event).toList).filter (inOffice (node.perform event).1.raft))
      (node.perform event).1 events

theorem Balanced.spent {events : List Event} (balanced : Balanced ledger node (events ++ [durable]))
    (ok : ((node.after events).perform durable).2.isOk = true)
    (passed : ∀ ticket ∈ ledgerAfter ledger node (events ++ [durable]),
      ticket.entry.index ≤ ((node.after events).perform durable).1.kv.appliedIndex) :
    ((node.after events).perform durable).1.sessionReservations = ∅ := by
  induction events generalizing node ledger with
  | nil =>
    rw [List.nil_append] at balanced passed
    exact ((balanced.1 rfl ok).2 passed).1
  | cons event events ih =>
    rw [List.cons_append] at balanced passed
    exact ih balanced.2 ok passed

def togetherRun : List Event :=
  pipelinedRun ++ [routedPeer 1 1 (.appendResp ⟨true, 3, none, 0, 0⟩), durable]

/-- Both commands are applied, and the reservations of the first are still held. -/
theorem reservation_outlives_command : ∃ node, new routedConfig (Std.ExtTreeSet.ofList [1, 2, 3] compare) = .ok node ∧
      ((node.after togetherRun).perform durable).1.kv.appliedIndex = 3 ∧
      ((node.after togetherRun).perform durable).1.sessionReservations.keys = [2] ∧
      ((node.after togetherRun).perform durable).1.logicalReservations.keys = [2] ∧
      ¬ Balanced [] node (togetherRun ++ [durable]) := by
  have facts : ((new routedConfig (Std.ExtTreeSet.ofList [1, 2, 3] compare)).toOption.map fun node =>
      ((((node.after togetherRun).perform durable).1.kv.appliedIndex,
        ((node.after togetherRun).perform durable).1.sessionReservations.keys,
        ((node.after togetherRun).perform durable).1.logicalReservations.keys),
        ((node.after togetherRun).perform durable).2.isOk,
        (ledgerAfter [] node (togetherRun ++ [durable])).all fun ticket =>
          decide (ticket.entry.index ≤ 3))) = some ((3, [2], [2]), true, true) := by
    decide +kernel
  obtain ⟨node, found, shown⟩ := Option.map_eq_some_iff.mp facts
  have made := toOption_eq_some.mp found
  obtain ⟨numbers, rest⟩ := Prod.mk.inj shown
  obtain ⟨applied, keys⟩ := Prod.mk.inj numbers
  obtain ⟨session, logical⟩ := Prod.mk.inj keys
  obtain ⟨ok, passed⟩ := Prod.mk.inj rest
  refine ⟨node, made, applied, session, logical, fun balanced => ?_⟩
  have empty := balanced.spent ok (by simpa [applied] using passed)
  rw [empty] at session
  cases session

end Node
end CrashCourse.Cluster
