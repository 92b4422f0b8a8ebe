import Mathlib

/-!
Orders of things that take time. Two orders that respect it can be merged into one: the
head that began first can always be taken next.
-/

namespace Linearization

variable {α T : Type*} [LinearOrder T]

structure Timing (α T : Type*) [LinearOrder T] where
  start : α → T
  stop : α → Option T

namespace Timing
variable (timing : Timing α T)

def Precedes (left right : α) : Prop := ∃ stop, timing.stop left = some stop ∧ stop < timing.start right

def Forward (thing : α) : Prop := ∀ stop, timing.stop thing = some stop → timing.start thing ≤ stop

def Respects (order : List α) : Prop := order.Pairwise fun left right => ¬ timing.Precedes right left

variable {timing} {order : List α}

theorem Respects.of_sublist {part : List α} (respects : timing.Respects order) (within : part.Sublist order) :
    timing.Respects part := List.Pairwise.sublist within respects

theorem Respects.head {first : α} {rest : List α} (respects : timing.Respects (first :: rest)) :
    ∀ later ∈ rest, ¬ timing.Precedes later first := (List.pairwise_cons.mp respects).1

theorem Respects.tail {first : α} {rest : List α} (respects : timing.Respects (first :: rest)) :
    timing.Respects rest := (List.pairwise_cons.mp respects).2

theorem Respects.not_precedes {first early : α} {rest : List α} (respects : timing.Respects (first :: rest))
    (forward : timing.Forward first) (began : timing.start early ≤ timing.start first) :
    ∀ later ∈ first :: rest, ¬ timing.Precedes later early := by
  rintro later member ⟨stop, stopped, before⟩
  rcases List.mem_cons.mp member with rfl | member
  · exact absurd before (not_lt.mpr (began.trans (forward stop stopped)))
  · exact respects.head later member ⟨stop, stopped, before.trans_le began⟩

/-- What stands between two that precede each other neither ended before the first
began nor began after the second ended. -/
theorem Respects.between {first second : α} (respects : timing.Respects order) (here : first ∈ order)
    (there : second ∈ order) (apart : first ≠ second) (precedes : timing.Precedes first second) :
    ∃ before middle after, order = before ++ first :: (middle ++ second :: after) ∧
      ∀ thing ∈ middle, ¬ timing.Precedes thing first ∧ ¬ timing.Precedes second thing := by
  obtain ⟨before, rest, rfl⟩ := List.append_of_mem here
  obtain ⟨-, rights, cross⟩ := List.pairwise_append.mp respects
  have later : second ∈ rest := by
    rcases List.mem_append.mp there with member | member
    · exact absurd precedes (cross second member first List.mem_cons_self)
    · exact (List.mem_cons.mp member).resolve_left (Ne.symm apart)
  obtain ⟨middle, after, rfl⟩ := List.append_of_mem later
  refine ⟨before, middle, after, rfl, fun thing member => ⟨?_, ?_⟩⟩
  · exact (List.pairwise_cons.mp rights).1 thing (List.mem_append_left _ member)
  · have inner := (List.pairwise_append.mp (List.pairwise_cons.mp rights).2).2.2
    exact inner thing member second List.mem_cons_self

end Timing

/-- The third list holds the things of the other two, each in its order. -/
inductive Interleaves : List α → List α → List α → Prop
  | nil : Interleaves [] [] []
  | left {head : α} {lefts rights all : List α} (rest : Interleaves lefts rights all) :
      Interleaves (head :: lefts) rights (head :: all)
  | right {head : α} {lefts rights all : List α} (rest : Interleaves lefts rights all) :
      Interleaves lefts (head :: rights) (head :: all)

namespace Interleaves
variable {lefts rights all : List α}

theorem perm (mixed : Interleaves lefts rights all) : all.Perm (lefts ++ rights) := by
  induction mixed with
  | nil => exact .nil
  | left _ ih => exact ih.cons _
  | right _ ih => exact (ih.cons _).trans List.perm_middle.symm

theorem of_left : (lefts : List α) → Interleaves lefts [] lefts
  | [] => .nil
  | _ :: rest => .left (of_left rest)

theorem of_right : (rights : List α) → Interleaves [] rights rights
  | [] => .nil
  | _ :: rest => .right (of_right rest)

theorem exists_respecting {timing : Timing α T} : ∀ {lefts rights : List α},
    (∀ thing ∈ lefts, timing.Forward thing) → (∀ thing ∈ rights, timing.Forward thing) →
    timing.Respects lefts → timing.Respects rights →
    ∃ all, Interleaves lefts rights all ∧ timing.Respects all
  | [], rights, _, _, _, respects => ⟨rights, of_right rights, respects⟩
  | lefts, [], _, _, respects, _ => ⟨lefts, of_left lefts, respects⟩
  | first :: lefts, second :: rights, forward, forward', respects, respects' => by
      -- the one that began first goes first
      rcases le_total (timing.start first) (timing.start second) with began | began
      · obtain ⟨all, mixed, respected⟩ := exists_respecting
          (fun thing member => forward thing (List.mem_cons_of_mem _ member)) forward' respects.tail respects'
        refine ⟨first :: all, .left mixed, List.pairwise_cons.mpr ⟨fun later member => ?_, respected⟩⟩
        rcases List.mem_append.mp (mixed.perm.mem_iff.mp member) with member | member
        · exact respects.head later member
        · exact respects'.not_precedes (forward' second List.mem_cons_self) began later member
      · obtain ⟨all, mixed, respected⟩ := exists_respecting forward
          (fun thing member => forward' thing (List.mem_cons_of_mem _ member)) respects respects'.tail
        refine ⟨second :: all, .right mixed, List.pairwise_cons.mpr ⟨fun later member => ?_, respected⟩⟩
        rcases List.mem_append.mp (mixed.perm.mem_iff.mp member) with member | member
        · exact respects.not_precedes (forward first List.mem_cons_self) began later member
        · exact respects'.head later member

end Interleaves
end Linearization
