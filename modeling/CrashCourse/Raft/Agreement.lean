import CrashCourse.Raft.Stream

/-!
What an accepted append request makes of the log: it is replaced only from the first
conflict on.
-/

namespace CrashCourse.Raft
open CrashCourse.Core
namespace RaftNode

/-- The request carries an entry for this index, and the log holds one of another term. -/
def ConflictsAt (node : RaftNode) (entries : List Entry) (index : Nat) : Prop :=
  ∃ entry ∈ entries, entry.index = index ∧ ∃ held, node.entryAt index = some held ∧ held.term ≠ entry.term

section Entries
variable {node next : RaftNode} {entry : Entry}

theorem entryAt_push (log : next.log = node.log ++ [entry]) {index : Nat} (other : index ≠ entry.index) :
    next.entryAt index = node.entryAt index := by
  have missed : ¬ entry.index = index := fun same => other same.symm
  rw [entryAt, log, List.find?_append, entryAt]
  simp [missed]

theorem entryAt_pushed (log : next.log = node.log ++ [entry]) (free : node.entryAt entry.index = none) :
    next.entryAt entry.index = some entry := by
  rw [entryAt] at free
  rw [entryAt, log, List.find?_append, free]
  simp

theorem entryAt_truncated (node : RaftNode) (cut index : Nat) :
    (node.truncateSuffix cut).entryAt index = if index < cut then node.entryAt index else none := by
  rw [entryAt, (truncateSuffix_log node cut).1, List.find?_filter]
  split
  next below =>
    rw [entryAt]
    congr 1
    funext held
    by_cases here : held.index = index
    · simp [here, below]
    · simp [here]
  next above =>
    rw [List.find?_eq_none]
    intro held _ found
    simp only [decide_eq_true_eq, beq_iff_eq] at found
    omega

theorem entryAt_index {held : Entry} {index : Nat} (found : node.entryAt index = some held) : held.index = index := by
  simpa using List.find?_some found

theorem termAt_of_entryAt (numbered : Numbered node.snapshotIndex node.log) {held : Entry} {index : Nat}
    (found : node.entryAt index = some held) : node.termAt index = some held.term := by
  have above := numbered.index_gt (List.mem_of_find?_eq_some found)
  rw [entryAt_index found] at above
  rw [termAt, if_neg (by omega), if_neg (by omega), if_neg (by omega), found]
  rfl

theorem entryAt_low (numbered : Numbered node.snapshotIndex node.log) {index : Nat}
    (low : index ≤ node.snapshotIndex) : node.entryAt index = none := numbered.find_none low

theorem entryAt_high (numbered : Numbered node.snapshotIndex node.log) {index : Nat} (high : node.lastIndex < index) :
    node.entryAt index = none := by
  rw [entryAt, List.find?_eq_none]
  intro held member found
  obtain ⟨position, within, here⟩ := List.getElem_of_mem member
  have place := numbered.getElem_index (List.getElem?_eq_some_iff.mpr ⟨within, here⟩)
  rw [lastIndex_numbered numbered] at high
  simp only [beq_iff_eq] at found
  omega

end Entries

structure Absorbs (node : RaftNode) (entries : List Entry) (next : RaftNode) : Prop where
  carried : ∀ entry ∈ entries, ∃ held, next.entryAt entry.index = some held ∧ held.term = entry.term ∧
    (held = entry ∨ node.entryAt entry.index = some held)
  before : ∀ index, (∀ conflict, ConflictsAt node entries conflict → index < conflict) →
    ∀ held, node.entryAt index = some held → next.entryAt index = some held
  longer : (∀ index, ¬ ConflictsAt node entries index) → node.log <+: next.log

section Loop
variable {node next : RaftNode} {message : Message} {entry : Entry} {rest : List Entry} {start : Nat}

theorem truncateSuffix_numbered {existing : Entry} (numbered : Numbered node.snapshotIndex node.log) {index : Nat}
    (found : node.entryAt index = some existing) :
    Numbered (node.truncateSuffix index).snapshotIndex (node.truncateSuffix index).log := by
  obtain ⟨kept, -, -, log, base⟩ := truncateSuffix_found numbered found
  rw [log, base]
  exact numbered.take _

theorem Absorbs.skip {existing : Entry} (index : entry.index = start + 1) (numbered : Numbered (start + 1) rest)
    (found : node.entryAt entry.index = some existing) (same : existing.term = entry.term)
    (later : Absorbs node rest next) : Absorbs node (entry :: rest) next := by
  have agree : ∀ conflict, ConflictsAt node (entry :: rest) conflict ↔ ConflictsAt node rest conflict := by
    intro conflict
    constructor
    · rintro ⟨other, member, rfl, held, here, differ⟩
      rcases List.mem_cons.mp member with rfl | member
      · rw [found] at here
        exact absurd same (Option.some.inj here ▸ differ)
      · exact ⟨other, member, rfl, held, here, differ⟩
    · rintro ⟨other, member, rfl, held, here, differ⟩
      exact ⟨other, List.mem_cons_of_mem _ member, rfl, held, here, differ⟩
  refine ⟨fun other member => ?_, fun place before => ?_, fun none => ?_⟩
  · rcases List.mem_cons.mp member with rfl | member
    · refine ⟨existing, later.before other.index ?_ existing found, same, .inr found⟩
      rintro _ ⟨behind, behind_member, rfl, -⟩
      have := numbered.index_gt behind_member
      omega
    · exact later.carried other member
  · exact later.before place fun conflict here => before conflict ((agree conflict).mpr here)
  · exact later.longer fun index here => none index ((agree index).mpr here)

theorem Absorbs.push {ready pushed : RaftNode} (numbered : Numbered entry.index rest)
    (ready_free : ∀ index ≥ entry.index, ready.entryAt index = none)
    (kept : ∀ index < entry.index, ready.entryAt index = node.entryAt index)
    (log : pushed.log = ready.log ++ [entry]) (later : Absorbs pushed rest next)
    (longer : (∀ index, ¬ ConflictsAt node (entry :: rest) index) → node.log <+: ready.log)
    (cut : ∀ held, node.entryAt entry.index = some held → held.term ≠ entry.term)
    (short : node.entryAt entry.index = none → ∀ index ≥ entry.index, node.entryAt index = none) :
    Absorbs node (entry :: rest) next := by
  have fresh : pushed.entryAt entry.index = some entry := entryAt_pushed log (ready_free _ le_rfl)
  have free : ∀ other ∈ rest, pushed.entryAt other.index = none := by
    intro other member
    have := numbered.index_gt member
    rw [entryAt_push log (by omega)]
    exact ready_free _ (by omega)
  have peaceful : ∀ index, ¬ ConflictsAt pushed rest index := by
    rintro _ ⟨other, member, rfl, held, here, -⟩
    rw [free other member] at here
    cases here
  have stays := fun index held => later.before index (fun conflict here => absurd here (peaceful conflict)) held
  refine ⟨fun other member => ?_, fun place before held found => ?_, fun none => ?_⟩
  · rcases List.mem_cons.mp member with rfl | member
    · exact ⟨other, stays _ _ fresh, rfl, .inl rfl⟩
    · obtain ⟨held, here, same, origin⟩ := later.carried other member
      rw [free other member] at origin
      exact ⟨held, here, same, .inl (origin.resolve_right (by rintro ⟨⟩))⟩
  · have below : place < entry.index := by
      cases here : node.entryAt entry.index with
      | some other => exact before entry.index ⟨entry, List.mem_cons_self, rfl, other, here, cut other here⟩
      | none =>
        by_contra above
        rw [short here place (not_lt.mp above)] at found
        cases found
    refine stays place held ?_
    rw [entryAt_push log (by omega), kept place below, found]
  · have front : ready.log <+: pushed.log := ⟨[entry], log.symm⟩
    exact ((longer none).trans front).trans (later.longer peaceful)

theorem appendLoop_absorbs {effects : List RaftEffect} {appended : List Entry} {out : List RaftEffect × List Entry}
    (numbered : Numbered node.snapshotIndex node.log) (consecutive : Numbered start rest)
    (done : appendLoop message rest node effects appended = (next, .ok out)) : Absorbs node rest next := by
  induction rest generalizing node start effects appended with
  | nil =>
    rw [appendLoop] at done
    obtain ⟨rfl, -⟩ := Prod.mk.inj done
    exact ⟨by simp, fun _ _ _ found => found, fun _ => List.prefix_refl _⟩
  | cons entry rest ih =>
    obtain ⟨index, consecutive⟩ := consecutive
    rw [appendLoop] at done
    cases found : node.entryAt entry.index with
    | some existing =>
      rw [found] at done
      dsimp only at done
      split at done
      next same => exact .skip index consecutive found same (ih numbered consecutive done)
      next differ =>
        split at done
        · cases (Prod.mk.inj done).2
        split at done
        next => cases (Prod.mk.inj done).2
        next pushed pushes =>
          have shorter := truncateSuffix_numbered numbered found
          rw [← index] at consecutive
          refine .push consecutive ?_ ?_ (pushEntry_ok pushes).2.1
            (ih (pushEntry_numbered shorter pushes).1 consecutive done) ?_ ?_ ?_
          · intro place above
            rw [entryAt_truncated, if_neg (by omega)]
          · intro place below
            rw [entryAt_truncated, if_pos below]
          · intro none
            exact absurd ⟨entry, List.mem_cons_self, rfl, existing, found, differ⟩ (none entry.index)
          · rw [found]
            rintro held ⟨⟩
            exact differ
          · rw [found]
            rintro ⟨⟩
    | none =>
      rw [found] at done
      dsimp only at done
      split at done
      next => cases (Prod.mk.inj done).2
      next pushed pushes =>
        obtain ⟨place, log, -⟩ := pushEntry_ok pushes
        have high : ∀ index ≥ entry.index, node.entryAt index = none :=
          fun index above => entryAt_high numbered (by omega)
        rw [← index] at consecutive
        refine .push consecutive high (fun _ _ => rfl) log ?_ (fun _ => List.prefix_refl _) ?_ fun _ => high
        · exact ih (pushEntry_numbered numbered pushes).1 consecutive done
        · rw [found]
          rintro held ⟨⟩

end Loop

theorem Advances.entryAt_committed {node next : RaftNode} {passed : List Entry} (tracked : node.Tracked)
    (advances : Advances node passed next) {index : Nat} (committed : index ≤ node.commitIndex) :
    next.entryAt index = node.entryAt index := by
  have window : ∀ {log : List Entry}, 0 < index →
      (between log (index - 1) index).find? (fun entry => entry.index == index) =
        log.find? fun entry => entry.index == index := by
    intro log positive
    rw [between, List.find?_filter]
    congr 1
    funext entry
    by_cases here : entry.index = index
    · simp [here]
      omega
    · simp [here]
  rcases Nat.eq_zero_or_pos index with rfl | positive
  · rw [entryAt_low advances.tracked.numbered (Nat.zero_le _), entryAt_low tracked.numbered (Nat.zero_le _)]
  · rw [entryAt, entryAt, ← window positive, advances.keeps _ _ committed, window positive]

end RaftNode

/-- An accepted request leaves an entry of the right term at each of its indexes, the
carried one or one that was there; below the first conflict nothing changes, without
one the log only grows, and what is committed stays. -/
theorem append_request_agrees {node : RaftNode} (tracked : node.Tracked) {message : Message} {request : AppendRequest}
    (consecutive : Numbered request.prevIndex request.entries) (now : Nat) {answer : Message}
    {response : AppendResponse} (answered : .send answer ∈ (node.appendRequest message request now).2)
    (kind : answer.kind = .appendResp response) (accepted : response.success) :
    (∀ entry ∈ request.entries, (node.appendRequest message request now).1.termAt entry.index = some entry.term ∧
      ((node.appendRequest message request now).1.entryAt entry.index = some entry ∨
        (node.appendRequest message request now).1.entryAt entry.index = node.entryAt entry.index)) ∧
    (∀ index, (∀ conflict, node.ConflictsAt request.entries conflict → index < conflict) →
      ∀ held, node.entryAt index = some held →
        (node.appendRequest message request now).1.entryAt index = some held) ∧
    ((∀ index, ¬ node.ConflictsAt request.entries index) →
      node.log <+: (node.appendRequest message request now).1.log) ∧
    (∀ index ≤ node.commitIndex, (node.appendRequest message request now).1.entryAt index = node.entryAt index) := by
  obtain ⟨ready, looped, out, log, base, done, last, -⟩ := RaftNode.appendRequest_success answered kind accepted
  have advances : RaftNode.Advances node _ (node.appendRequest message request now).1 :=
    RaftNode.appendRequest_advances tracked request now
  generalize (node.appendRequest message request now).1 = next at last advances ⊢
  have before : ∀ index, ready.entryAt index = node.entryAt index := fun index => by
    rw [RaftNode.entryAt, log, RaftNode.entryAt]
  have after : ∀ index, next.entryAt index = looped.entryAt index := fun index => by
    rw [RaftNode.entryAt, last, RaftNode.entryAt]
  have conflicts : ∀ index, ready.ConflictsAt request.entries index ↔ node.ConflictsAt request.entries index :=
    fun index => by simp only [RaftNode.ConflictsAt, before]
  have absorbs := RaftNode.appendLoop_absorbs (by rw [log, base]; exact tracked.numbered) consecutive done
  refine ⟨fun entry member => ?_, fun index below held found => ?_, fun none => ?_, fun index committed => ?_⟩
  · obtain ⟨held, here, same, origin⟩ := absorbs.carried entry member
    rw [← after] at here
    constructor
    · rw [RaftNode.termAt_of_entryAt advances.tracked.numbered here, same]
    · rcases origin with rfl | origin
      · exact .inl here
      · rw [before] at origin
        exact .inr (here.trans origin.symm)
  · rw [after]
    refine absorbs.before index (fun conflict here => below conflict ((conflicts conflict).mp here)) held ?_
    rw [before, found]
  · rw [last, ← log]
    exact absorbs.longer fun index here => none index ((conflicts index).mp here)
  · exact advances.entryAt_committed tracked committed

def forkedFollower : RaftNode :=
  { RaftNode.new 2 (Std.ExtTreeSet.ofList [1, 2] compare) 2 .default with
    log := [⟨1, 1, .noop, []⟩, ⟨1, 2, .app, [1]⟩, ⟨1, 3, .app, [2]⟩]
    commitIndex := 1
    appliedIndex := 1 }

def mendingRequest : AppendRequest := ⟨1, 1, [⟨2, 2, .noop, []⟩], 1, 0⟩

def mendingAppend : Message := ⟨2, 1, 2, 2, .appendReq mendingRequest⟩

theorem forkedFollower_agrees : (forkedFollower.appendRequest mendingAppend mendingRequest 0).1.termAt 2 = some 2 ∧
    (forkedFollower.appendRequest mendingAppend mendingRequest 0).1.entryAt 1 = some ⟨1, 1, .noop, []⟩ := by
  have tracked : forkedFollower.Tracked := ⟨by decide, by decide, by decide, by decide⟩
  have answered : .send ⟨2, 2, 1, 0, .appendResp ⟨true, 2, none, 0, 0⟩⟩ ∈
      (forkedFollower.appendRequest mendingAppend mendingRequest 0).2 := by decide +kernel
  obtain ⟨carried, -, -, committed⟩ := append_request_agrees tracked (by decide) 0 answered rfl rfl
  exact ⟨(carried ⟨2, 2, .noop, []⟩ (by decide)).1, committed 1 (by decide)⟩

end CrashCourse.Raft
