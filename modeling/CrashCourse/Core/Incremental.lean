import Mathlib

/-!
Readers that take their input in steps. How the input is cut does not matter:
`read_append`.
-/

namespace CrashCourse.Core

structure Reader (σ α ε : Type) where
  /-- The number of items of the next step; `none` waits. -/
  need : σ → List α → Except ε (Option Nat)
  take : σ → List α → Except ε σ
  positive : ∀ {state items count}, need state items = .ok (some count) → 0 < count
  stable : ∀ {state items} (others : List α), need state items ≠ .ok none →
    need state (items ++ others) = need state items

namespace Reader
variable {σ α ε : Type} (reader : Reader σ α ε)

def loop : Nat → σ → List α → Except ε (σ × List α)
  | 0, state, items => .ok (state, items)
  | fuel + 1, state, items =>
    match reader.need state items with
    | .error error => .error error
    | .ok none => .ok (state, items)
    | .ok (some count) =>
      if items.length < count then .ok (state, items)
      else do loop fuel (← reader.take state (items.take count)) (items.drop count)

def read (state : σ) (items : List α) : Except ε (σ × List α) := reader.loop (items.length + 1) state items

section Loop
variable {state : σ} {items : List α} {fuel count : Nat}

theorem loop_takes (needs : reader.need state items = .ok (some count)) (enough : count ≤ items.length) :
    reader.loop (fuel + 1) state items =
      reader.take state (items.take count) >>= fun state' => reader.loop fuel state' (items.drop count) := by
  rw [loop, needs]
  exact if_neg (not_lt.mpr enough)

theorem read_fails {error : ε} (failed : reader.need state items = .error error) :
    reader.read state items = .error error := by
  rw [read, loop, failed]

theorem read_waits (waits : reader.need state items = .ok none) : reader.read state items = .ok (state, items) := by
  rw [read, loop, waits]

theorem read_short (needs : reader.need state items = .ok (some count)) (short : items.length < count) :
    reader.read state items = .ok (state, items) := by
  rw [read, loop, needs]
  exact if_pos short

theorem loop_eq_read (enough : items.length < fuel) : reader.loop fuel state items = reader.read state items := by
  rw [read]
  generalize enough' : items.length + 1 = fuel'
  replace enough' : items.length < fuel' := by omega
  induction fuel generalizing state items fuel' with
  | zero => omega
  | succ fuel ih =>
    obtain ⟨fuel', rfl⟩ : ∃ less, fuel' = less + 1 := ⟨fuel' - 1, by omega⟩
    cases needs : reader.need state items with
    | error error => rw [loop, loop, needs]
    | ok need =>
      cases need with
      | none => rw [loop, loop, needs]
      | some count =>
        rcases Nat.lt_or_ge items.length count with short | long
        · rw [loop, loop, needs]
          exact (if_pos short).trans (if_pos short).symm
        have positive := reader.positive needs
        have shorter : (items.drop count).length < items.length := by
          rw [List.length_drop]
          omega
        rw [reader.loop_takes needs long, reader.loop_takes needs long]
        exact bind_congr fun state' => ih (by omega) _ (by omega)

theorem read_takes (needs : reader.need state items = .ok (some count)) (enough : count ≤ items.length) :
    reader.read state items =
      reader.take state (items.take count) >>= fun state' => reader.read state' (items.drop count) := by
  have positive := reader.positive needs
  refine (reader.loop_takes needs enough).trans (bind_congr fun state' => reader.loop_eq_read ?_)
  rw [List.length_drop]
  omega

theorem read_eq : reader.read state items = match reader.need state items with
    | .error error => .error error
    | .ok none => .ok (state, items)
    | .ok (some count) =>
      if items.length < count then .ok (state, items)
      else reader.take state (items.take count) >>= fun state' => reader.read state' (items.drop count) := by
  cases needs : reader.need state items with
  | error error => exact reader.read_fails needs
  | ok need =>
    cases need with
    | none => exact reader.read_waits needs
    | some count =>
      dsimp only
      split
      next short => exact reader.read_short needs short
      next long => exact reader.read_takes needs (not_lt.mp long)

theorem read_append (others : List α) : reader.read state (items ++ others) =
      reader.read state items >>= fun pair => reader.read pair.1 (pair.2 ++ others) := by
  induction size : items.length using Nat.strong_induction_on generalizing state items with
  | _ size ih =>
    have stable : reader.need state items ≠ .ok none → _ := reader.stable others
    cases needs : reader.need state items with
    | error error =>
      rw [needs] at stable
      rw [reader.read_fails needs, reader.read_fails (stable (by rintro ⟨⟩))]
      rfl
    | ok need =>
      cases need with
      | none =>
        rw [reader.read_waits needs]
        rfl
      | some count =>
        rw [needs] at stable
        rcases Nat.lt_or_ge items.length count with short | long
        · rw [reader.read_short needs short]
          rfl
        have positive := reader.positive needs
        rw [reader.read_takes needs long,
          reader.read_takes (stable (by rintro ⟨⟩)) (long.trans (by rw [List.length_append]; omega)),
          List.take_append_of_le_length long, List.drop_append_of_le_length long, bind_assoc]
        exact bind_congr fun state' =>
          ih (items.drop count).length (by rw [List.length_drop]; omega) rfl

end Loop
end Reader
end CrashCourse.Core
