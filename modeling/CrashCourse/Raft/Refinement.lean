import CrashCourse.Raft.Replay

/-!
How a node and the messages in flight refine a history. A call is followed effect by
effect, so that it may be cut by a crash.
-/

namespace CrashCourse.Raft
open CrashCourse.Core Consensus

variable (group : Group) (history : History NodeId Entry)

structure Leads (node : RaftNode) : Prop where
  elected : ∃ start, history.elected node.hardState.term = some (node.id, start) ∧
    start.length < node.log.length
  matched : ∀ {peer index}, group.Watches peer → peer ≠ node.id →
    node.matchIndex[peer]? = some index → index ≤ history.acked node.hardState.term peer
  aimed : ∀ {peer index}, group.Watches peer → peer ≠ node.id →
    node.nextIndex[peer]? = some index → history.Aim node.hardState.term peer (index - 1)

structure Refines (node : RaftNode) : Prop where
  rooted : node.Rooted group.membership
  config : node.config = group.config
  term : history.term node.id = node.hardState.term
  vote : history.vote node.id = node.hardState.votedFor
  log : history.log node.id = node.log
  carries : node.Carries (project group.membership node.log)
  leads : node.role = .leader → Leads group history node
  asked : node.role = .candidate → node.id ∈ node.votes → ¬ group.fixed →
    history.requested node.hardState.term node.id = some node.log
  voted : node.role = .candidate → ∀ voter ∈ node.votes,
    voter ∈ history.voters node.hardState.term node.id
  decided : history.Decided node.hardState.term node.log node.commitIndex
  retired : group.fixed → node.retiringPeers = ∅
  transfer : ∀ {transfer}, node.transfer = some transfer → ∃ intent,
    history.Settles node.id intent ∧ intent.index = transfer.intentIndex ∧
      intent.configHas isBeginTransfer
  genesisFeatures : (group.membership.activeFeatures &&& atomicBatchFeature) ≠ 0 →
    (node.activeFeatures &&& atomicBatchFeature) ≠ 0
  activated : (node.activeFeatures &&& atomicBatchFeature) ≠ 0 →
    (group.membership.activeFeatures &&& atomicBatchFeature) ≠ 0 ∨ ∃ prior,
      history.Settles node.id prior ∧ prior.configHas (isActivationOf atomicBatchFeature)

structure RaftNode.SameGround (before after : RaftNode) : Prop where
  id : after.id = before.id
  commitIndex : after.commitIndex = before.commitIndex
  config : after.config = before.config
  snapshotIndex : after.snapshotIndex = before.snapshotIndex
  snapshotTerm : after.snapshotTerm = before.snapshotTerm
  baseVoters : after.baseVoters = before.baseVoters
  baseLearners : after.baseLearners = before.baseLearners
  baseJoint : after.baseJoint = before.baseJoint
  baseJointEnterIndex : after.baseJointEnterIndex = before.baseJointEnterIndex
  baseActiveFeatures : after.baseActiveFeatures = before.baseActiveFeatures
  activeFeatures : after.activeFeatures = before.activeFeatures ∨
    after.activeFeatures = before.baseActiveFeatures
  transfer : after.transfer.map LeadershipTransfer.intentIndex =
    before.transfer.map LeadershipTransfer.intentIndex

/-- Everything the node claims about the history stays, except that it may give
up its role. -/
structure RaftNode.SameClaims (before after : RaftNode) : Prop extends SameGround before after where
  hardState : after.hardState = before.hardState
  log : after.log = before.log
  nextIndex : after.nextIndex = before.nextIndex
  matchIndex : after.matchIndex = before.matchIndex
  votes : after.role = .candidate → after.votes = before.votes
  voters : after.voters = before.voters
  learners : after.learners = before.learners
  joint : after.joint = before.joint
  jointEnterIndex : after.jointEnterIndex = before.jointEnterIndex
  retiringPeers : before.retiringPeers = ∅ → after.retiringPeers = ∅
  role : after.role = before.role ∨ (after.role ≠ .leader ∧ after.role ≠ .candidate)

def TruthfulAppend (term : Nat) (sender target : NodeId) (request : AppendRequest) : Prop :=
  ∃ start sent, history.elected term = some (sender, start) ∧ start.length < sent.length ∧
    sent <+: history.leaderLog term ∧ history.Aim term target request.prevIndex ∧
    request.prevTerm = (termOf sent request.prevIndex).getD 0 ∧
    request.entries = (sent.drop request.prevIndex).take group.config.maxEntriesPerAppend ∧
    history.Decided term sent request.leaderCommit

def TruthfulResponse (term : Nat) (sender : NodeId) (response : AppendResponse) : Prop :=
  if response.success then
    response.matchIndex ≤ history.acked term sender ∧
      history.Probe term sender response.matchIndex
  else history.Probe term sender (max response.conflictIndex 1 - 1)

def Truthful (message : Message) : Prop :=
  match message.kind with
  | .voteReq lastIndex lastTerm => ∃ log,
      history.requested message.term message.sender = some log ∧ lastIndex = log.length ∧
        lastTerm = (rules group).lastTerm log
  | .voteResp granted => granted →
      message.sender ∈ history.voters message.term message.target
  | .appendReq request =>
    TruthfulAppend group history message.term message.sender message.target request
  | .appendResp response => TruthfulResponse history message.term message.sender response
  | _ => True

structure Untouched (before after : History NodeId Entry) (id : NodeId) : Prop where
  term : after.term id = before.term id
  vote : after.vote id = before.vote id
  log : after.log id = before.log id

theorem Untouched.refl (id : NodeId) : Untouched history history id := ⟨rfl, rfl, rfl⟩

def Explains (before after : History NodeId Entry) (id : NodeId) : RaftEffect → Prop
  | .send message => Untouched before after id ∧ Truthful group after message
  | .persistHard hard => after.term id = hard.term ∧ after.vote id = hard.votedFor ∧
      after.log id = before.log id
  | .persistEntries entries => after.term id = before.term id ∧ after.vote id = before.vote id ∧
      after.log id = before.log id ++ entries
  | .truncateSuffix index => after.term id = before.term id ∧ after.vote id = before.vote id ∧
      after.log id = (before.log id).filter fun entry => decide (entry.index < index)
  | .apply entries => Untouched before after id ∧ ∀ entry ∈ entries, after.Settles id entry
  | _ => Untouched before after id

def Quiet : RaftEffect → Prop
  | .send message => Truthful group history message
  | .persistHard _ | .persistEntries _ | .truncateSuffix _ | .apply _ => False
  | _ => True

/-- The node executed these effects one after the other, and the history moved along. -/
inductive Follows (id : NodeId) :
    History NodeId Entry → List RaftEffect → History NodeId Entry → Prop
  | done {before after : History NodeId Entry}
      (steps : History.Steps (rules group) id before after)
      (same : Untouched before after id) : Follows id before [] after
  | cons {before middle after : History NodeId Entry} {effect : RaftEffect} {rest : List RaftEffect}
      (steps : History.Steps (rules group) id before middle)
      (explained : Explains group before middle id effect)
      (later : Follows id middle rest after) : Follows id before (effect :: rest) after

/-- The outcome of a call is followed by the history, and refines it again. -/
def Simulates (id : NodeId) (outcome : RaftNode.Step) : Prop :=
  ∃ after, Follows group id history (outcome.2.flatMap RaftEffect.atoms) after ∧
    Refines group after outcome.1 ∧ outcome.1.id = id

variable {group history}

namespace Follows
variable {id : NodeId} {before middle after : History NodeId Entry} {first second : List RaftEffect}

theorem steps (follows : Follows group id before first after) : History.Steps (rules group) id before after := by
  induction follows with
  | done steps => exact steps
  | cons steps _ _ ih => exact steps.trans ih

theorem refl (history : History NodeId Entry) : Follows group id history [] history :=
  .done .refl (.refl history id)

theorem single {effect : RaftEffect} (steps : History.Steps (rules group) id before after)
    (explained : Explains group before after id effect) : Follows group id before [effect] after :=
  .cons steps explained (.refl after)

theorem silent (steps : History.Steps (rules group) id before middle)
    (same : Untouched before middle id) (later : Follows group id middle second after) :
    Follows group id before second after := by
  cases later with
  | done steps' same' =>
    exact .done (steps.trans steps') ⟨same'.term.trans same.term, same'.vote.trans same.vote,
      same'.log.trans same.log⟩
  | @cons _ next _ effect rest steps' explained later =>
    refine .cons (steps.trans steps') ?_ later
    have untouched : Untouched middle next id → Untouched before next id := fun same' =>
      ⟨same'.term.trans same.term, same'.vote.trans same.vote, same'.log.trans same.log⟩
    cases effect with
    | send message | apply entries => exact ⟨untouched explained.1, explained.2⟩
    | persistHard hard => exact ⟨explained.1, explained.2.1, explained.2.2.trans same.log⟩
    | persistEntries entries | truncateSuffix index =>
      exact ⟨explained.1.trans same.term, explained.2.1.trans same.vote, same.log ▸ explained.2.2⟩
    | _ => exact untouched explained

theorem append (one : Follows group id before first middle) (two : Follows group id middle second after) :
    Follows group id before (first ++ second) after := by
  induction one with
  | done steps same => exact two.silent steps same
  | cons steps explained _ ih => exact .cons steps explained (ih two)

theorem quiet (effects : List RaftEffect) (all : ∀ effect ∈ effects, Quiet group before effect) :
    Follows group id before (effects.flatMap RaftEffect.atoms) before := by
  induction effects with
  | nil => exact .refl before
  | cons effect rest ih =>
    have later := ih fun other member => all other (List.mem_cons_of_mem _ member)
    have here := all effect List.mem_cons_self
    rw [List.flatMap_cons]
    refine append ?_ later
    cases effect with
    | send message => exact single .refl ⟨.refl before id, here⟩
    | persistHard hard | persistEntries entries | truncateSuffix index | apply entries => exact here.elim
    | _ => exact single .refl (.refl before id)

end Follows

section Growth
variable {actor : NodeId} {after : History NodeId Entry}
  (inv : History.Inv (rules group) history)
  (steps : History.Steps (rules group) actor history after)
include inv steps

theorem Leads.along {node : RaftNode} (leads : Leads group history node) : Leads group after node where
  elected := by
    obtain ⟨start, elected, longer⟩ := leads.elected
    exact ⟨start, (History.Steps.grows inv steps).elected elected, longer⟩
  matched watched other here :=
    (leads.matched watched other here).trans ((History.Steps.grows inv steps).acked _ _)
  aimed watched other here := History.Steps.aim inv steps (leads.aimed watched other here)

theorem Truthful.along {message : Message} (truthful : Truthful group history message) :
    Truthful group after message := by
  have grows := History.Steps.grows inv steps
  unfold Truthful at truthful ⊢
  split at truthful
  · obtain ⟨log, asked, rest⟩ := truthful
    exact ⟨log, grows.requested asked, rest⟩
  · exact fun granted => grows.voters _ _ (truthful granted)
  · obtain ⟨start, sent, elected, longer, inside, aim, term, entries, decided⟩ := truthful
    exact ⟨start, sent, grows.elected elected, longer, inside.trans (grows.leaderLog _),
      History.Steps.aim inv steps aim, term, entries, decided.grow grows⟩
  · unfold TruthfulResponse at truthful ⊢
    split at truthful
    next success =>
      rw [if_pos success]
      exact ⟨truthful.1.trans (grows.acked _ _), History.Steps.probe inv steps truthful.2⟩
    next failure =>
      rw [if_neg failure]
      exact History.Steps.probe inv steps truthful
  · trivial

theorem Refines.along {node : RaftNode} (refines : Refines group history node)
    (same : Untouched history after node.id) : Refines group after node where
  rooted := refines.rooted
  config := refines.config
  term := same.term.trans refines.term
  vote := same.vote.trans refines.vote
  log := same.log.trans refines.log
  carries := refines.carries
  leads role := (refines.leads role).along inv steps
  asked role own free := (History.Steps.grows inv steps).requested (refines.asked role own free)
  voted role voter member :=
    (History.Steps.grows inv steps).voters _ _ (refines.voted role voter member)
  decided := refines.decided.grow (History.Steps.grows inv steps)
  retired := refines.retired
  transfer isOpen := by
    obtain ⟨intent, settles, rest⟩ := refines.transfer isOpen
    exact ⟨intent, History.Steps.settles inv steps settles, rest⟩
  genesisFeatures := refines.genesisFeatures
  activated active := by
    rcases refines.activated active with genesis | ⟨prior, settles, activates⟩
    · exact .inl genesis
    · exact .inr ⟨prior, History.Steps.settles inv steps settles, activates⟩

theorem Refines.frame {node : RaftNode} (refines : Refines group history node)
    (apart : node.id ≠ actor) : Refines group after node := by
  obtain ⟨term, vote, log⟩ := History.Steps.frame steps apart
  exact refines.along inv steps ⟨term, vote, log⟩

end Growth

section Claims
variable {node after : RaftNode}

theorem RaftNode.SameGround.refl (node : RaftNode) : node.SameGround node := by
  constructor <;> first | rfl | exact .inl rfl

theorem RaftNode.SameClaims.refl (node : RaftNode) : node.SameClaims node :=
  ⟨.refl node, rfl, rfl, rfl, rfl, fun _ => rfl, rfl, rfl, rfl, rfl, fun none => none, .inl rfl⟩

theorem Leads.claims (leads : Leads group history node) (same : node.SameClaims after) :
    Leads group history after := by
  obtain ⟨elected, matched, aimed⟩ := leads
  refine ⟨?_, ?_, ?_⟩
  · rw [same.id, same.hardState, same.log]; exact elected
  · rw [same.matchIndex, same.hardState, same.id]; exact matched
  · rw [same.nextIndex, same.hardState, same.id]; exact aimed

theorem RaftNode.Rooted.ground {membership : MembershipState} (rooted : node.Rooted membership)
    (same : node.SameGround after) : after.Rooted membership where
  voters := same.baseVoters.trans rooted.voters
  learners := same.baseLearners.trans rooted.learners
  joint := same.baseJoint.trans rooted.joint
  enterIndex := same.baseJointEnterIndex.trans rooted.enterIndex
  features := same.baseActiveFeatures.trans rooted.features
  snapshotIndex := same.snapshotIndex.trans rooted.snapshotIndex
  snapshotTerm := same.snapshotTerm.trans rooted.snapshotTerm

theorem Refines.ground {later : History NodeId Entry} (refines : Refines group history node)
    (same : node.SameGround after) (term : later.term after.id = after.hardState.term)
    (vote : later.vote after.id = after.hardState.votedFor)
    (settled : ∀ {entry}, history.Settles node.id entry → later.Settles node.id entry)
    (log : later.log after.id = after.log) (carries : after.Carries (project group.membership after.log))
    (leads : after.role = .leader → Leads group later after)
    (asked : after.role = .candidate → after.id ∈ after.votes → ¬ group.fixed →
      later.requested after.hardState.term after.id = some after.log)
    (voted : after.role = .candidate → ∀ voter ∈ after.votes,
      voter ∈ later.voters after.hardState.term after.id)
    (decided : later.Decided after.hardState.term after.log after.commitIndex)
    (retired : group.fixed → after.retiringPeers = ∅) : Refines group later after where
  rooted := refines.rooted.ground same
  config := same.config.trans refines.config
  term := term
  vote := vote
  log := log
  carries := carries
  leads := leads
  asked := asked
  voted := voted
  decided := decided
  retired := retired
  transfer {transfer} isOpen := by
    have known := same.transfer
    rw [isOpen, Option.map_some, eq_comm, Option.map_eq_some_iff] at known
    obtain ⟨was, wasOpen, here⟩ := known
    obtain ⟨intent, settles, index, begins⟩ := refines.transfer wasOpen
    rw [same.id]
    exact ⟨intent, settled settles, index.trans here, begins⟩
  genesisFeatures genesis := by
    rcases same.activeFeatures with kept | reset
    · rw [kept]; exact refines.genesisFeatures genesis
    · rw [reset, refines.rooted.features]; exact genesis
  activated active := by
    rw [same.id]
    rcases same.activeFeatures with kept | reset
    · rw [kept] at active
      rcases refines.activated active with genesis | ⟨prior, settles, activates⟩
      · exact .inl genesis
      · exact .inr ⟨prior, settled settles, activates⟩
    · rw [reset, refines.rooted.features] at active
      exact .inl active

theorem Refines.claims (refines : Refines group history node) (same : node.SameClaims after) :
    Refines group history after := by
  refine refines.ground same.toSameGround ?_ ?_ id ?_ ?_ ?_ ?_ ?_ ?_
    fun fixed => same.retiringPeers (refines.retired fixed)
  · rw [same.id, same.hardState, refines.term]
  · rw [same.id, same.hardState, refines.vote]
  · rw [same.id, same.log, refines.log]
  · rw [same.log]
    exact ⟨same.voters.trans refines.carries.voters, same.learners.trans refines.carries.learners,
      same.joint.trans refines.carries.joint,
      same.jointEnterIndex.trans refines.carries.enterIndex⟩
  · intro role
    rcases same.role with kept | passive
    · exact (refines.leads (kept ▸ role)).claims same
    · exact absurd role passive.1
  · intro role own
    rcases same.role with kept | passive
    · rw [same.id, same.votes role] at own
      rw [same.id, same.hardState, same.log]
      exact refines.asked (kept ▸ role) own
    · exact absurd role passive.2
  · intro role
    rcases same.role with kept | passive
    · rw [same.id, same.hardState, same.votes role]
      exact refines.voted (kept ▸ role)
    · exact absurd role passive.2
  · rw [same.hardState, same.log, same.commitIndex]
    exact refines.decided

theorem Refines.commitTo (refines : Refines group history node) {commitIndex : Nat}
    (decided : history.Decided node.hardState.term node.log commitIndex) :
    Refines group history { node with commitIndex } :=
  { refines with
    rooted := { refines.rooted with }
    carries := { refines.carries with }
    leads := fun role => { refines.leads role with }
    decided := decided }

end Claims

namespace Refines
variable {node : RaftNode} (inv : History.Inv (rules group) history)
  (refines : Refines group history node)
include inv refines

theorem valid : ValidLog group.membership node.log := by
  have sound := inv.leaders.log_sound node.id
  rw [refines.log] at sound
  exact (inv.leaders.sound_valid sound).1

theorem plain (fixed : group.fixed) : Plain node.log := by
  have sound := inv.leaders.log_sound node.id
  rw [refines.log] at sound
  exact (inv.leaders.sound_valid sound).2 fixed

theorem numbered : Numbered 0 node.log := (refines.valid inv).numbered

theorem lastIndex : node.lastIndex = node.log.length :=
  RaftNode.lastIndex_eq (refines.numbered inv) refines.rooted.snapshotIndex

theorem termAt (index : Nat) : node.termAt index = termOf node.log index :=
  RaftNode.termAt_eq (refines.numbered inv) refines.rooted.snapshotIndex index

theorem settled (fixed : group.fixed) : (project group.membership node.log).joint = none := by
  rw [(refines.plain inv fixed).project]
  simp [Projection.genesis, group.settled fixed]

theorem watches {peer : NodeId} (known : peer ∈ node.voters ∨ peer ∈ node.learners ∨ peer ∈ node.retiringPeers) :
    group.Watches peer := by
  intro fixed
  rw [refines.carries.voters, refines.carries.learners, (refines.plain inv fixed).project,
    refines.retired fixed] at known
  rcases known with voter | learner | retiring
  · exact .inl voter
  · exact .inr learner
  · simp at retiring

omit inv in
theorem lastTerm : node.lastTerm = (rules group).lastTerm node.log :=
  RaftNode.lastTerm_eq refines.rooted.snapshotTerm group

omit inv in
theorem transferKept : node.TransferKept := by
  intro transfer isOpen
  obtain ⟨intent, settles, here, begins⟩ := refines.transfer isOpen
  exact ⟨intent, refines.log ▸ settles.member, here, begins⟩

omit inv in
theorem featuresKept : node.FeaturesKept group.membership where
  genesis := refines.genesisFeatures
  activated active := by
    rcases refines.activated active with genesis | ⟨prior, settles, activates⟩
    · exact .inl genesis
    · exact .inr ⟨prior, refines.log ▸ settles.member, activates⟩

end Refines
end CrashCourse.Raft
