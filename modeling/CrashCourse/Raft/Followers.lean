import CrashCourse.Raft.Elections

/-!
The follower's side of replication: the loop of `append_request` finds every entry in
place or makes the log the leader's.
-/

namespace CrashCourse.Raft
open CrashCourse.Core Consensus

variable {group : Group} {history : History NodeId Entry} {node : RaftNode}

namespace RaftNode

theorem SameGround.trans {first second third : RaftNode} (one : first.SameGround second)
    (two : second.SameGround third) : first.SameGround third where
  id := two.id.trans one.id
  commitIndex := two.commitIndex.trans one.commitIndex
  config := two.config.trans one.config
  snapshotIndex := two.snapshotIndex.trans one.snapshotIndex
  snapshotTerm := two.snapshotTerm.trans one.snapshotTerm
  baseVoters := two.baseVoters.trans one.baseVoters
  baseLearners := two.baseLearners.trans one.baseLearners
  baseJoint := two.baseJoint.trans one.baseJoint
  baseJointEnterIndex := two.baseJointEnterIndex.trans one.baseJointEnterIndex
  baseActiveFeatures := two.baseActiveFeatures.trans one.baseActiveFeatures
  activeFeatures := by
    rcases two.activeFeatures with kept | reset
    · rw [kept]; exact one.activeFeatures
    · exact .inr (reset.trans one.baseActiveFeatures)
  transfer := two.transfer.trans one.transfer

structure Receiving (group : Group) (base node : RaftNode) : Prop where
  same : base.SameGround node
  rooted : node.Rooted group.membership
  hardState : node.hardState = base.hardState
  carries : node.Carries (project group.membership node.log)
  features : node.FeaturesKept group.membership
  retired : group.fixed → node.retiringPeers = ∅
  passive : node.role ≠ .leader ∧ node.role ≠ .candidate

namespace Receiving
variable {base : RaftNode} (receiving : Receiving group base node)
  (valid : ValidLog group.membership node.log)
include receiving valid

theorem lastIndex : node.lastIndex = node.log.length :=
  lastIndex_eq valid.numbered receiving.rooted.snapshotIndex

theorem truncate (position : Nat) (plain : group.fixed → Plain (node.log.take position)) :
    Receiving group base (node.truncateSuffix (position + 1)) ∧
    (node.truncateSuffix (position + 1)).log = node.log.take position := by
  have short : (node.log.filter fun existing => decide (existing.index < position + 1)) =
      node.log.take position := by simpa using valid.numbered.filter_lt position
  unfold truncateSuffix
  rw [short]
  have rooted : ({ node with log := node.log.take position } : RaftNode).Rooted group.membership :=
    { receiving.rooted with }
  have body := rebuild_body { node with log := node.log.take position }
  have features := rebuild_features rooted
  refine ⟨⟨receiving.same.trans ?_, rooted.of_body body, ?_, ?_, ⟨?_, ?_⟩,
    fun fixed => rebuild_retired (plain fixed), ?_⟩, body.log⟩
  · refine { body with activeFeatures := .inr ?_, transfer := ?_ }
    · exact features.trans receiving.rooted.features.symm
    · rw [rebuild_transfer]
      exact (resyncTransferFinishing_claims { node with log := node.log.take position }).transfer
  · exact body.hardState.trans receiving.hardState
  · rw [body.log]
    exact rebuild_carries rooted (valid.of_start (List.take_prefix _ _))
  · rw [features]; exact fun genesis => genesis
  · rw [features]; exact .inl
  · rcases body.role with kept | follower
    · rw [kept]; exact receiving.passive
    · rw [follower]; simp

theorem push (message : Message) (effects : List RaftEffect) (entry : Entry)
    (acceptable : Acceptable group.membership node.log entry)
    (plainEntry : group.fixed → entry.kind.isConfig = false) :
    ∃ next, node.pushEntry message entry effects = .ok next ∧ Receiving group base next ∧
      next.log = node.log ++ [entry] := by
  have grown : ∀ {prior : Entry}, prior ∈ node.log → prior ∈ node.log ++ [entry] :=
    fun member => List.mem_append_left _ member
  unfold pushEntry
  rw [if_neg (by rw [acceptable.index, receiving.lastIndex valid]; simp)]
  split
  next config =>
    obtain ⟨next, done⟩ := applyConfigOnAppend_of_acceptable valid receiving.carries
      receiving.features config acceptable
    obtain ⟨body, transfer, features⟩ := applyConfigOnAppend_body done
    rw [done]
    have free : ¬ group.fixed := fun fixed => by simp [plainEntry fixed] at config
    refine ⟨_, rfl, ⟨receiving.same.trans ?_, ?_, ?_, ?_, ⟨?_, ?_⟩, fun fixed => absurd fixed free,
      ?_⟩, by rw [body.log]⟩
    · exact { body with
        activeFeatures := .inl features
        transfer := congrArg (Option.map LeadershipTransfer.intentIndex) transfer }
    · exact { receiving.rooted.of_body body with }
    · exact body.hardState.trans receiving.hardState
    · rw [body.log]
      exact { applyConfigOnAppend_carries config receiving.carries done with }
    · rw [features]; exact receiving.features.genesis
    · rw [features, body.log]
      exact fun active => (receiving.features.activated active).imp_right
        fun ⟨prior, member, activates⟩ => ⟨prior, grown member, activates⟩
    · rcases body.role with kept | follower
      · rw [kept]; exact receiving.passive
      · rw [follower]; simp
  next plain =>
    refine ⟨_, rfl, ⟨receiving.same.trans { SameGround.refl node with }, { receiving.rooted with },
      receiving.hardState, ?_, ⟨receiving.features.genesis, ?_⟩, receiving.retired,
      receiving.passive⟩, rfl⟩
    · rw [project_append_plain _ _ (by simpa using plain)]
      exact { receiving.carries with }
    · exact fun active => (receiving.features.activated active).imp_right
        fun ⟨prior, member, activates⟩ => ⟨prior, grown member, activates⟩

omit valid in
theorem pushAll (message : Message) {sent : List Entry} (validSent : ValidLog group.membership sent)
    (plainSent : group.fixed → Plain sent)
    (tail : List Entry) (inside : node.log ++ tail <+: sent) (effects : List RaftEffect) (appended : List Entry) :
    ∃ next, appendLoop message tail node effects appended = (next, .ok (effects, appended ++ tail)) ∧
      Receiving group base next ∧ next.log = node.log ++ tail := by
  induction tail generalizing node appended with
  | nil => exact ⟨node, by simp [appendLoop], receiving, by simp⟩
  | cons entry rest ih =>
    have valid : ValidLog group.membership node.log :=
      validSent.of_start ((List.prefix_append _ _).trans inside)
    have here : node.log ++ [entry] <+: sent :=
      List.IsPrefix.trans ⟨rest, by simp⟩ inside
    have acceptable := validSent node.log entry here
    have missing : node.entryAt entry.index = none := by
      rw [acceptable.index, entryAt_succ valid.numbered]
      simp
    obtain ⟨pushed, done, receiving', log⟩ := receiving.push valid message effects entry acceptable
      fun fixed => plainSent fixed entry (here.subset (by simp))
    obtain ⟨next, looped, rest'⟩ := ih receiving' (by rw [log]; simpa using inside)
      (appended ++ [entry])
    refine ⟨next, ?_, rest'.1, by rw [rest'.2, log]; simp⟩
    rw [appendLoop, missing]
    dsimp only
    rw [done]
    dsimp only
    rw [looped]
    simp

/-- The loop leaves a log that has the whole request alone; otherwise it keeps what is
shared and takes everything else over. -/
theorem loop (message : Message) {sent : List Entry} (validSent : ValidLog group.membership sent)
    (plainSent : group.fixed → Plain sent) (agree : ∀ {position entry entry'}, node.log[position]? = some entry →
      sent[position]? = some entry' → entry.term = entry'.term →
      node.log.take (position + 1) = sent.take (position + 1))
    (committed : ∀ {position entry entry'}, position < node.commitIndex →
      node.log[position]? = some entry → sent[position]? = some entry' → entry.term = entry'.term)
    {have_ rest : List Entry} (inside : have_ ++ rest <+: sent) (shared : have_ <+: node.log)
    (effects : List RaftEffect) : (appendLoop message rest node effects [] = (node, .ok (effects, [])) ∧
        have_ ++ rest <+: node.log) ∨
      ∃ next kept tail cut, have_ ++ rest = kept ++ tail ∧ kept <+: node.log ∧ tail ≠ [] ∧
        ((cut = [] ∧ node.log = kept) ∨ (cut = [.truncateSuffix (kept.length + 1)] ∧
          ∃ entry entry', node.log[kept.length]? = some entry ∧
            sent[kept.length]? = some entry' ∧ entry.term ≠ entry'.term)) ∧
        appendLoop message rest node effects [] = (next, .ok (effects ++ cut, tail)) ∧
        Receiving group base next ∧ next.log = kept ++ tail := by
  induction rest generalizing have_ with
  | nil => exact .inl ⟨rfl, by simpa using shared⟩
  | cons entry rest ih =>
    have here : have_ ++ [entry] <+: sent := List.IsPrefix.trans ⟨rest, by simp⟩ inside
    have at_ : sent[have_.length]? = some entry := by
      obtain ⟨more, rfl⟩ := here
      simp
    have acceptable := validSent have_ entry here
    have plainEntry : group.fixed → entry.kind.isConfig = false :=
      fun fixed => plainSent fixed entry (here.subset (by simp))
    have taken : node.log.take have_.length = have_ := (List.prefix_iff_eq_take.mp shared).symm
    rw [appendLoop, acceptable.index, entryAt_succ valid.numbered]
    cases existing : node.log[have_.length]? with
    | none =>
      -- the log ends here
      have whole : node.log = have_ := by
        rw [← taken, List.take_of_length_le (List.getElem?_eq_none_iff.mp existing)]
      obtain ⟨pushed, done, receiving', log⟩ :=
        receiving.push valid message effects entry (by rw [whole]; exact acceptable) plainEntry
      obtain ⟨next, looped, rest'⟩ := receiving'.pushAll message validSent plainSent rest
        (by rw [log, whole]; simpa using inside) effects [entry]
      refine .inr ⟨next, have_, entry :: rest, [], rfl, shared, by simp, .inl ⟨rfl, whole⟩, ?_,
        rest'.1, by rw [rest'.2, log, whole]; simp⟩
      dsimp only
      rw [done]
      dsimp only
      rw [List.nil_append, looped]
      simp
    | some found =>
      dsimp only
      by_cases same : found.term = entry.term
      · rw [if_pos same]
        have grown : have_ ++ [entry] <+: node.log := by
          have whole := agree existing at_ same
          rw [(List.prefix_iff_eq_take.mp here), List.length_append, List.length_singleton, ← whole]
          exact List.take_prefix _ _
        have looped := ih (by simpa using inside) grown
        simpa using looped
      · rw [if_neg same, if_neg fun low => same (committed (by omega) existing at_)]
        obtain ⟨receiving', log⟩ := receiving.truncate valid have_.length fun fixed other member =>
          plainSent fixed other (here.subset (List.mem_append_left _ (taken ▸ member)))
        rw [taken] at log
        have valid' : ValidLog group.membership (node.truncateSuffix (have_.length + 1)).log := by
          rw [log]; exact validSent.of_start ((List.prefix_append _ _).trans here)
        obtain ⟨pushed, done, receiving'', log'⟩ := receiving'.push valid' message
          (effects ++ [.truncateSuffix (have_.length + 1)]) entry (by rw [log]; exact acceptable)
          plainEntry
        obtain ⟨next, looped, rest'⟩ := receiving''.pushAll message validSent plainSent rest
          (by rw [log', log]; simpa using inside)
          (effects ++ [.truncateSuffix (have_.length + 1)]) [entry]
        refine .inr ⟨next, have_, entry :: rest, [.truncateSuffix (have_.length + 1)], rfl, shared,
          by simp, .inr ⟨rfl, found, entry, existing, at_, same⟩, ?_, rest'.1,
          by rw [rest'.2, log', log]; simp⟩
        rw [done]
        dsimp only
        rw [List.nil_append, looped]
        simp

end Receiving
end RaftNode

section Writes
variable {id leader : NodeId} {start sent : List Entry}

theorem Follows.acceptAll (inv : History.Inv (rules group) history)
    (led : history.elected (history.term id) = some (leader, start)) (other : leader ≠ id)
    (inside : sent <+: history.leaderLog (history.term id)) {kept : List Entry}
    (holds : history.log id = kept) (tail : List Entry) (more : kept ++ tail <+: sent) :
    ∃ after, Follows group id history (tail.map fun entry => .persistEntries [entry]) after ∧
      after.term id = history.term id ∧ after.vote id = history.vote id ∧
      after.log id = kept ++ tail := by
  induction tail generalizing history kept with
  | nil => exact ⟨history, .refl history, rfl, rfl, by simpa using holds⟩
  | cons entry rest ih =>
    have step : History.Step (rules group) history id
        (history.accept id (kept ++ [entry])) := by
      refine .accept led other (List.IsPrefix.trans ⟨rest, by simp⟩ (more.trans inside)) ?_
      intro common held _
      exact (holds ▸ held).trans (List.prefix_append _ _)
    have log : (history.accept id (kept ++ [entry])).log id = kept ++ [entry] := by
      simp [History.accept]
    obtain ⟨after, follows, term, vote, log'⟩ := ih (step.inv inv) led inside log (by simpa using more)
    refine ⟨after, .cons (.single step) ⟨rfl, rfl, by rw [log, holds]⟩ follows, term, vote, ?_⟩
    rw [log']; simp

/-- A log that has to change is another node's, and what differs is given up. -/
theorem Follows.rewrite (inv : History.Inv (rules group) history)
    (led : history.elected (history.term id) = some (leader, start))
    (inside : sent <+: history.leaderLog (history.term id)) {kept tail : List Entry}
    {cut : List RaftEffect} (shared : kept <+: history.log id) (nonempty : tail ≠ []) (more : kept ++ tail <+: sent)
    (differs : (cut = [] ∧ history.log id = kept) ∨ (cut = [.truncateSuffix (kept.length + 1)] ∧
      ∃ entry entry', (history.log id)[kept.length]? = some entry ∧
        sent[kept.length]? = some entry' ∧ entry.term ≠ entry'.term)) :
    ∃ after, Follows group id history (cut ++ tail.map fun entry => .persistEntries [entry]) after ∧
      after.term id = history.term id ∧ after.vote id = history.vote id ∧
      after.log id = kept ++ tail := by
  have other : leader ≠ id := by
    rintro rfl
    have own : sent <+: history.log leader := inv.leaders.leaderLog_log led ▸ inside
    rcases differs with ⟨_, whole⟩ | ⟨_, entry, entry', here, there, apart⟩
    · have long := (more.trans own).length_le
      rw [whole, List.length_append] at long
      exact nonempty (List.length_eq_zero_iff.mp (by omega))
    · obtain ⟨rest, same⟩ := own
      obtain ⟨bound, _⟩ := List.getElem?_eq_some_iff.mp there
      rw [← same, List.getElem?_append_left bound, there] at here
      exact apart (by rw [Option.some.inj here])
  rcases differs with ⟨rfl, whole⟩ | ⟨rfl, entry, entry', here, there, apart⟩
  · simpa using Follows.acceptAll inv led other inside whole tail more
  have lead : (history.leaderLog (history.term id))[kept.length]? = some entry' := by
    obtain ⟨rest, same⟩ := inside
    obtain ⟨bound, _⟩ := List.getElem?_eq_some_iff.mp there
    rw [← same, List.getElem?_append_left bound, there]
  have step : History.Step (rules group) history id (history.accept id kept) := by
    refine .accept led other ((List.prefix_append _ _).trans (more.trans inside)) ?_
    intro common held common'
    refine List.prefix_of_prefix_length_le held shared ?_
    by_contra longer
    -- a longer common start would contain the place where the two differ
    have bound : kept.length < common.length := by omega
    obtain ⟨rest, same⟩ := held
    obtain ⟨rest', same'⟩ := common'
    rw [← same, List.getElem?_append_left bound] at here
    rw [← same', List.getElem?_append_left bound, here] at lead
    exact apart (by rw [Option.some.inj lead])
  have log : (history.accept id kept).log id = kept := by simp [History.accept]
  obtain ⟨after, follows, term, vote, log'⟩ :=
    Follows.acceptAll (step.inv inv) led other inside log tail more
  refine ⟨after, .cons (.single step) ⟨rfl, rfl, ?_⟩ follows, term, vote, log'⟩
  have numbered := (inv.leaders.sound_valid (inv.leaders.log_sound id)).1.numbered
  have short := numbered.filter_lt kept.length
  rw [Nat.zero_add] at short
  rw [log, short, (List.prefix_iff_eq_take.mp shared).symm]

end Writes

theorem RaftNode.acknowledgeAppend_effects (node : RaftNode) (message : Message)
    (request : AppendRequest) (effects : List RaftEffect) (appended : List Entry) :
    node.acknowledgeAppend message request effects appended =
      ((node.acknowledgeAppend message request [] []).1,
        (if appended.isEmpty then effects else effects ++ [.persistEntries appended]) ++
          (node.acknowledgeAppend message request [] []).2) := by
  unfold acknowledgeAppend
  simp only [List.isEmpty_nil, if_true, List.nil_append, List.append_assoc]

theorem Refines.acknowledgeAppend (inv : History.Inv (rules group) history)
    (refines : Refines group history node) (message : Message) (request : AppendRequest)
    {leader : NodeId} {start sent : List Entry} (led : history.elected node.hardState.term = some (leader, start))
    (follows : node.log <+: history.leaderLog node.hardState.term)
    (inside : sent <+: history.leaderLog node.hardState.term)
    (decided : history.Decided node.hardState.term sent request.leaderCommit) :
    Simulates group history node.id (node.acknowledgeAppend message request [] []) := by
  have step : History.Step (rules group) history node.id
      (history.acknowledge node.id node.log.length) := by
    refine .acknowledge (by rw [refines.term, led]; rfl) (by rw [refines.log]) ?_
    rw [refines.log, refines.term, List.take_length]
    exact follows
  have reached := step.inv inv
  have grows := step.grows inv.ballots inv.leaders
  have along := refines.along inv (.single step) ⟨rfl, rfl, rfl⟩
  have acked : node.log.length ≤
      (history.acknowledge node.id node.log.length).acked node.hardState.term node.id := by
    rw [← refines.term]
    simp [History.acknowledge, History.update_pair_apply]
  -- whatever of the sender's commit lies in the node's own log is decided there
  have committed : history.Decided node.hardState.term node.log
      (min request.leaderCommit node.log.length) := by
    refine (decided.less (min_le_left _ _)).of_take ?_
    refine List.prefix_of_prefix_length_le ((List.take_prefix _ _).trans inside) follows ?_
    exact (List.length_take_le _ _).trans (min_le_right _ _)
  have answer : ∀ after : RaftNode, after.id = node.id → after.hardState = node.hardState →
      after.lastIndex = node.log.length → Follows group node.id
        (history.acknowledge node.id node.log.length)
        [after.makeAppendResponse message true after.lastIndex none 0]
        (history.acknowledge node.id node.log.length) := by
    intro after id hard last
    refine .single .refl ⟨.refl _ _, ?_⟩
    unfold Truthful
    dsimp only [RaftNode.makeAppendResponse]
    rw [id, hard, last]
    refine ⟨acked, .of_follows refines.term.ge fun _ => ⟨?_, ?_⟩⟩
    · exact Option.isSome_iff_exists.mpr ⟨_, led⟩
    · exact refines.log.symm ▸ follows
  unfold RaftNode.acknowledgeAppend
  simp only [List.isEmpty_nil, if_true, List.nil_append]
  split
  next ahead =>
    rw [refines.lastIndex inv]
    have moved := along.commitTo (committed.grow grows)
    obtain ⟨applies, applied⟩ := moved.applyCommitted reached
    refine ⟨_, ?_, applied, rfl⟩
    rw [List.flatMap_append]
    have answered := answer (RaftNode.applyCommitted
      { node with commitIndex := min request.leaderCommit node.log.length }).1 rfl rfl
      (applied.lastIndex reached)
    exact (applies.append answered).silent (.single step) ⟨rfl, rfl, rfl⟩
  next =>
    exact ⟨_, (answer node rfl rfl (refines.lastIndex inv)).silent (.single step) ⟨rfl, rfl, rfl⟩,
      along, rfl⟩

theorem termOf_getElem? {log : List Entry} {position term : Nat} (here : termOf log (position + 1) = some term) :
    ∃ entry, log[position]? = some entry ∧ entry.term = term := by
  obtain ⟨entry, at_, same⟩ := Option.map_eq_some_iff.mp here
  exact ⟨entry, at_, same⟩

section Request
variable (inv : History.Inv (rules group) history) (refines : Refines group history node)
include inv refines

theorem Refines.match_previous {sent : List Entry} {index : Nat}
    (inside : sent <+: history.leaderLog node.hardState.term)
    (matching : termOf node.log index = some ((termOf sent index).getD 0)) :
    index ≤ sent.length ∧ sent.take index <+: node.log := by
  have sound : history.Sound (rules group) node.log := refines.log ▸ inv.leaders.log_sound node.id
  have soundSent := (inv.leaders.leaderLog_sound node.hardState.term).of_start inside
  cases index with
  | zero => simp
  | succ position =>
    obtain ⟨entry, at_, same⟩ := termOf_getElem? matching
    cases there : sent[position]? with
    | none =>
      -- beyond the sender's log the request says term zero, that no entry has
      have zero : termOf sent (position + 1) = none := by simp [termOf, there]
      have positive := inv.leaders.sound_positive inv.ballots sound
        (List.mem_of_getElem? at_)
      rw [zero, Option.getD_none] at same
      exact absurd (show entry.term = 0 from same) positive.ne'
    | some entry' =>
      have term : termOf sent (position + 1) = some entry'.term := by simp [termOf, there]
      rw [term, Option.getD_some] at same
      have agree := sound.agree soundSent at_ there same
      obtain ⟨bound, _⟩ := List.getElem?_eq_some_iff.mp there
      exact ⟨bound, agree ▸ List.take_prefix _ _⟩

theorem Refines.mismatch_previous {leader : NodeId} {start sent : List Entry} {index : Nat}
    (led : history.elected node.hardState.term = some (leader, start)) (longer : start.length < sent.length)
    (inside : sent <+: history.leaderLog node.hardState.term)
    (mismatch : termOf node.log index ≠ some ((termOf sent index).getD 0)) : history.Probe node.hardState.term node.id
      (max (if index > node.log.length then node.log.length + 1 else max index 1) 1 - 1) := by
  split
  next short =>
    refine ⟨refines.term.ge, fun _ => .inl ?_⟩
    rw [refines.log]
    omega
  next within =>
    cases index with
    | zero => exact absurd rfl mismatch
    | succ position =>
      have bound : position + 1 ≤ (history.log node.id).length := by
        rw [refines.log]; omega
      rw [show max (max (position + 1) 1) 1 - 1 = position by omega, ← refines.term]
      rw [← refines.term] at led
      refine inv.probe_of_mismatch led longer bound fun reach shared => mismatch ?_
      rw [refines.log, refines.term] at shared
      have same : node.log.take (position + 1) = sent.take (position + 1) := by
        have whole := List.prefix_of_prefix_length_le shared inside (by simp; omega)
        rw [List.prefix_iff_eq_take.mp whole, List.length_take, min_eq_left (by omega)]
      have at_ : node.log[position]? = sent[position]? := by
        have := congrArg (·[position]?) same
        simpa [List.getElem?_take] using this
      obtain ⟨entry, there⟩ : ∃ entry, sent[position]? = some entry :=
        ⟨sent[position], List.getElem?_eq_getElem (by omega)⟩
      simp [termOf, at_, there]

theorem Refines.receive {message : Message} {request : AppendRequest} {leader : NodeId}
    {start sent : List Entry} (passive : node.role ≠ .leader ∧ node.role ≠ .candidate)
    (led : history.elected node.hardState.term = some (leader, start)) (longer : start.length < sent.length)
    (inside : sent <+: history.leaderLog node.hardState.term)
    (aim : history.Aim node.hardState.term node.id request.prevIndex) (entries : request.entries =
      (sent.drop request.prevIndex).take group.config.maxEntriesPerAppend)
    (decided : history.Decided node.hardState.term sent request.leaderCommit)
    (within : request.prevIndex ≤ sent.length) (shared : sent.take request.prevIndex <+: node.log) :
    Simulates group history node.id
      (match RaftNode.appendLoop message request.entries node [] [] with
        | (node, .error effects) => (node, effects)
        | (node, .ok (effects, appended)) =>
          node.acknowledgeAppend message request effects appended) := by
  have sound : history.Sound (rules group) node.log := refines.log ▸ inv.leaders.log_sound node.id
  have soundSent := (inv.leaders.leaderLog_sound node.hardState.term).of_start inside
  have validSent : ValidLog group.membership sent := (inv.leaders.sound_valid soundSent).1
  have receiving : RaftNode.Receiving group node node :=
    ⟨.refl node, refines.rooted, rfl, refines.carries, refines.featuresKept, refines.retired, passive⟩
  -- what is committed here is in the leader's log, so nothing sent contradicts it
  have committed : ∀ {position : Nat} {entry entry' : Entry}, position < node.commitIndex →
      node.log[position]? = some entry → sent[position]? = some entry' →
      entry.term = entry'.term := by
    intro position entry entry' below here there
    have held := refines.decided.in_leaderLog inv (by rw [led]; rfl)
    obtain ⟨bound, _⟩ := List.getElem?_eq_some_iff.mp here
    obtain ⟨bound', _⟩ := List.getElem?_eq_some_iff.mp there
    obtain ⟨rest, same⟩ := held
    obtain ⟨rest', same'⟩ := inside
    have left : (history.leaderLog node.hardState.term)[position]? = some entry := by
      rw [← same, List.getElem?_append_left (by simp; omega), List.getElem?_take_of_lt below, here]
    rw [← same', List.getElem?_append_left bound', there] at left
    rw [Option.some.inj left]
  have whole : sent.take request.prevIndex ++ request.entries =
      sent.take (request.prevIndex + group.config.maxEntriesPerAppend) := by
    rw [entries, List.take_add]
  rcases receiving.loop (refines.valid inv) message validSent
    (fun fixed => (inv.leaders.sound_valid soundSent).2 fixed)
    (fun here there same => sound.agree soundSent here there same) committed
    (whole ▸ List.take_prefix _ _) shared [] with
    ⟨looped, holds⟩ | ⟨next, kept, tail, cut, split, kept', nonempty, differs, looped, received, log⟩
  · rw [looped]
    rw [whole] at holds
    have follows : node.log <+: history.leaderLog node.hardState.term := by
      rw [← refines.term] at led inside aim ⊢
      rw [← refines.log] at holds ⊢
      have length := group.appends
      refine inv.follows_of_match led
        (min (request.prevIndex + group.config.maxEntriesPerAppend) sent.length) aim inside longer
        (min_le_right _ _) (by omega) (fun _ => by omega) ?_
      rw [← List.take_eq_take_min]
      exact holds
    exact refines.acknowledgeAppend inv message request led follows inside decided
  · rw [looped, List.nil_append]
    dsimp only
    have more : kept ++ tail <+: sent := split ▸ whole ▸ List.take_prefix _ _
    have shorter : node.log.take node.commitIndex <+: kept := by
      rcases differs with ⟨_, same⟩ | ⟨_, entry, entry', here, there, apart⟩
      · rw [same]; exact List.take_prefix _ _
      · refine List.prefix_of_prefix_length_le (List.take_prefix _ _) kept' ?_
        refine (List.length_take_le _ _).trans ?_
        by_contra above
        exact apart (committed (by omega) here there)
    rw [← refines.log] at kept' differs
    rw [← refines.term] at led inside decided
    obtain ⟨after, follows, term, vote, log'⟩ :=
      Follows.rewrite inv led inside kept' nonempty more differs
    have grows := History.Steps.grows inv follows.steps
    have reached := History.Steps.inv inv follows.steps
    have id := received.same.id
    have hard := received.hardState
    have inside' := inside.trans (grows.leaderLog _)
    have refines' : Refines group after next := by
      refine refines.ground received.same ?_ ?_ (History.Steps.settles inv follows.steps) ?_
        received.carries (fun leads => absurd leads received.passive.1)
        (fun candidate => absurd candidate received.passive.2)
        (fun candidate => absurd candidate received.passive.2) ?_ received.retired
      · rw [id, hard, term, refines.term]
      · rw [id, hard, vote, refines.vote]
      · rw [id, log', log]
      · rw [hard, received.same.commitIndex, log]
        exact (refines.decided.grow grows).of_take (shorter.trans (List.prefix_append _ _))
    rw [refines.term, ← hard] at led inside' decided
    have answer := refines'.acknowledgeAppend reached message request (grows.elected led)
      (log ▸ more.trans inside') inside' (decided.grow grows)
    rw [id] at answer
    rw [RaftNode.acknowledgeAppend_effects, if_neg (by simpa using nonempty)]
    refine Follows.simulates ?_ answer
    rw [List.flatMap_append]
    rcases differs with ⟨rfl, _⟩ | ⟨rfl, _⟩
    · simpa [RaftEffect.atoms] using follows
    · simpa [RaftEffect.atoms] using follows

theorem Refines.appendRequest {message : Message} {request : AppendRequest} (now : Nat)
    (kind : message.kind = .appendReq request) (target : message.target = node.id)
    (bound : message.term ≤ node.hardState.term) (truthful : Truthful group history message) :
    Simulates group history node.id (node.appendRequest message request now) := by
  unfold RaftNode.appendRequest
  split
  next stale =>
    -- a refusal of an old term only tells where the log ends
    refine ⟨history, .single .refl ⟨.refl history _, refines.term.ge, fun _ => .inl ?_⟩, refines, rfl⟩
    rw [refines.log, ← refines.lastIndex inv]
    change node.lastIndex ≤ max node.lastIndex 1 - 1 + 1
    omega
  next fresh =>
    have current : message.term = node.hardState.term := by omega
    unfold Truthful at truthful
    rw [kind] at truthful
    obtain ⟨start, sent, led, longer, inside, aim, prevTerm, entries, decided⟩ := truthful
    rw [current] at led inside aim decided
    rw [target] at aim
    have follower : node.SameClaims
        { node with role := node.memberRole, leaderId := some message.sender } :=
      { RaftNode.SameClaims.refl node with
        votes := fun _ => rfl
        role := .inr node.memberRole_passive }
    have refines' := (refines.claims follower).claims (RaftNode.resetElection_claims _ now)
    dsimp only
    split
    next mismatch =>
      refine ⟨history, .single .refl ⟨.refl history _, ?_⟩, refines', rfl⟩
      rw [refines'.termAt inv, prevTerm] at mismatch
      have probe := refines'.mismatch_previous inv led longer inside mismatch
      rw [refines'.lastIndex inv, refines'.rooted.snapshotIndex]
      exact probe
    next matching =>
      rw [not_not, refines'.termAt inv, prevTerm] at matching
      obtain ⟨within, shared⟩ := refines'.match_previous inv inside matching
      exact refines'.receive inv node.memberRole_passive led longer inside aim entries decided within
        shared

end Request
end CrashCourse.Raft
