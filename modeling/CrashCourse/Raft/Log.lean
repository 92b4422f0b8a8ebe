import CrashCourse.Raft.Projection

/-!
A valid log is contiguous from index one, so the searches by index of the source
are positions in the list.
-/

namespace CrashCourse.Raft
open CrashCourse.Core

def Numbered (base : Nat) : List Entry → Prop
  | [] => True
  | entry :: rest => entry.index = base + 1 ∧ Numbered (base + 1) rest

instance Numbered.decidable : (base : Nat) → (log : List Entry) → Decidable (Numbered base log)
  | _, [] => isTrue trivial
  | base, entry :: rest =>
    haveI := Numbered.decidable (base + 1) rest
    inferInstanceAs (Decidable (entry.index = base + 1 ∧ Numbered (base + 1) rest))

namespace Numbered
variable {base : Nat} {log : List Entry}

section
variable (numbered : Numbered base log)
include numbered

theorem append {entry : Entry}
    (next : entry.index = base + log.length + 1) : Numbered base (log ++ [entry]) := by
  induction log generalizing base with
  | nil => exact ⟨by simpa using next, trivial⟩
  | cons first rest ih =>
    refine ⟨numbered.1, ih numbered.2 ?_⟩
    simp only [List.length_cons] at next
    omega

theorem index_gt {entry : Entry} (member : entry ∈ log) : base < entry.index := by
  induction log generalizing base with
  | nil => simp at member
  | cons first rest ih =>
    rcases List.mem_cons.mp member with rfl | member
    · have := numbered.1
      omega
    · have := ih numbered.2 member
      omega

theorem getElem_index {position : Nat} {entry : Entry}
    (here : log[position]? = some entry) : entry.index = base + position + 1 := by
  induction log generalizing base position with
  | nil => simp at here
  | cons first rest ih =>
    cases position with
    | zero =>
      obtain rfl := Option.some.inj here
      exact numbered.1
    | succ position =>
      have := ih numbered.2 here
      omega

theorem find_index (position : Nat) :
    (log.find? fun entry => entry.index == base + position + 1) = log[position]? := by
  induction log generalizing base position with
  | nil => rfl
  | cons first rest ih =>
    cases position with
    | zero => simp [numbered.1]
    | succ position =>
      have other : (first.index == base + (position + 1) + 1) = false := by
        have := numbered.1
        simp only [beq_eq_false_iff_ne, ne_eq]
        omega
      have next := ih numbered.2 position
      rw [show base + 1 + position + 1 = base + (position + 1) + 1 by omega] at next
      rw [List.find?_cons, other, List.getElem?_cons_succ]
      exact next

theorem find_none {index : Nat} (low : index ≤ base) :
    (log.find? fun entry => entry.index == index) = none := by
  rw [List.find?_eq_none]
  intro entry member
  have := numbered.index_gt member
  simp only [beq_iff_eq]
  omega

theorem filter_lt (count : Nat) :
    (log.filter fun entry => decide (entry.index < base + count + 1)) = log.take count := by
  induction log generalizing base count with
  | nil => simp
  | cons first rest ih =>
    have here := numbered.1
    cases count with
    | zero =>
      rw [List.take_zero, List.filter_eq_nil_iff]
      intro entry member
      have : base < entry.index := numbered.index_gt member
      simp only [decide_eq_true_eq]
      omega
    | succ count =>
      rw [List.filter_cons_of_pos (by simp only [decide_eq_true_eq]; omega), List.take_succ_cons,
        ← ih numbered.2 count]
      congr 2
      funext entry
      congr 1
      rw [eq_iff_iff]
      omega

theorem filter_ge (count : Nat) :
    (log.filter fun entry => decide (entry.index ≥ base + count + 1)) = log.drop count := by
  induction log generalizing base count with
  | nil => simp
  | cons first rest ih =>
    have here := numbered.1
    cases count with
    | zero =>
      rw [List.drop_zero, List.filter_eq_self]
      intro entry member
      have : base < entry.index := numbered.index_gt member
      simp only [decide_eq_true_eq]
      omega
    | succ count =>
      rw [List.filter_cons_of_neg (by simp only [decide_eq_true_eq]; omega), List.drop_succ_cons,
        ← ih numbered.2 count]
      congr 1
      funext entry
      congr 1
      rw [eq_iff_iff]
      omega

theorem getLast_index {entry : Entry}
    (last : log.getLast? = some entry) : entry.index = base + log.length := by
  rw [List.getLast?_eq_getElem?] at last
  have nonempty : 0 < log.length := by
    rcases log with _ | _
    · simp at last
    · simp
  have := numbered.getElem_index last
  omega

theorem index_of_start {pre : List Entry} {entry : Entry}
    (inside : pre ++ [entry] <+: log) : entry.index = base + pre.length + 1 := by
  obtain ⟨rest, rfl⟩ := inside
  exact numbered.getElem_index (by simp)

end

end Numbered

theorem ValidLog.numbered {membership : MembershipState} {log : List Entry}
    (valid : ValidLog membership log) : Numbered 0 log := by
  induction log using List.reverseRecOn with
  | nil => trivial
  | append_singleton log entry ih =>
    refine (ih (valid.of_start (List.prefix_append _ _))).append ?_
    rw [valid.last.index, Nat.zero_add]

def termOf (log : List Entry) : Nat → Option Nat
  | 0 => some 0
  | index + 1 => (log[index]?).map Entry.term

namespace RaftNode
variable {node : RaftNode}

section Uncompacted
variable (numbered : Numbered 0 node.log) (uncompacted : node.snapshotIndex = 0)
include numbered

theorem entryAt_succ (position : Nat) : node.entryAt (position + 1) = node.log[position]? := by
  simpa [entryAt] using numbered.find_index position

include uncompacted

theorem lastIndex_eq : node.lastIndex = node.log.length := by
  unfold lastIndex
  cases last : node.log.getLast? with
  | none => simp_all
  | some entry => simpa using numbered.getLast_index last

theorem termAt_eq (index : Nat) : node.termAt index = termOf node.log index := by
  unfold termAt termOf
  cases index with
  | zero => simp
  | succ position => simp [uncompacted, entryAt_succ numbered]

end Uncompacted

theorem lastTerm_eq (uncompacted : node.snapshotTerm = 0) (group : Group) :
    node.lastTerm = (rules group).lastTerm node.log := by
  unfold lastTerm Consensus.Rules.lastTerm
  cases node.log.getLast? with
  | none => simpa using uncompacted
  | some entry => rfl

end RaftNode
end CrashCourse.Raft
