import Mathlib

/-!
Majorities of a list of members. Any two majorities of one list meet.
-/

namespace Consensus

variable {N : Type*}

open Classical in
noncomputable def countIn (members : List N) (set : Set N) : Nat :=
  (members.filter fun member => member ∈ set).length

def Majority (members : List N) (set : Set N) : Prop :=
  members.length < 2 * countIn members set

theorem countIn_mono {small large : Set N} (more : small ⊆ large) (members : List N) :
    countIn members small ≤ countIn members large := by
  classical
  induction members with
  | nil => simp [countIn]
  | cons member rest ih =>
    simp only [countIn, List.filter_cons] at ih ⊢
    by_cases inside : member ∈ small
    · simpa [inside, more inside] using ih
    · by_cases outside : member ∈ large <;> simp [inside, outside] <;> omega

theorem countIn_add_le {left right : Set N} (apart : ¬ (left ∩ right).Nonempty)
    (members : List N) : countIn members left + countIn members right ≤ members.length := by
  classical
  induction members with
  | nil => simp [countIn]
  | cons member rest ih =>
    simp only [countIn, List.filter_cons, List.length_cons] at ih ⊢
    by_cases inLeft : member ∈ left
    · have notRight : member ∉ right := fun inRight => apart ⟨member, inLeft, inRight⟩
      simp [inLeft, notRight]
      omega
    · by_cases inRight : member ∈ right <;> simp [inLeft, inRight] <;> omega

theorem Majority.mono {members : List N} {small large : Set N} (more : small ⊆ large)
    (majority : Majority members small) : Majority members large :=
  majority.trans_le (Nat.mul_le_mul_left 2 (countIn_mono more members))

theorem Majority.meet {members : List N} {left right : Set N} (first : Majority members left)
    (second : Majority members right) : (left ∩ right).Nonempty := by
  by_contra apart
  have := countIn_add_le apart members
  unfold Majority at first second
  omega

end Consensus
