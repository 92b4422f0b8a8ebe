import Mathlib

/-!
An outbox with barriers. A queue is worked off from the front; a barrier holds back all
that is behind it until its completion comes, and a failed completion drops it.
-/

namespace Outbox
variable {ι ε : Type}

structure Rules (ι ε : Type) where
  /-- Working off an item: its effects, and the items that take its place. -/
  emits : ι → List ε → List ι → Prop
  /-- The item is a barrier, with the effect that asks for the completion. -/
  barrier : ι → ε → Prop
  /-- Effects that a call may add behind what it releases. -/
  loose : ε → Prop

variable {rules : Rules ι ε}

/-- The queue is worked off up to its first barrier; what is behind the barrier is left. -/
inductive Released (rules : Rules ι ε) : List ι → List ε → Option (List ι) → Prop
  | done : Released rules [] [] none
  | item {item : ι} {out more : List ε} {new rest : List ι} {left : Option (List ι)}
      (emitted : rules.emits item out new) (behind : Released rules (new ++ rest) more left) :
      Released rules (item :: rest) (out ++ more) left
  | stop {item : ι} {effect : ε} {rest : List ι} (barrier : rules.barrier item effect) :
      Released rules (item :: rest) [effect] (some rest)

inductive Observation (ι ε : Type) where
  | step (items : List ι) (out : List ε)
  | answered (out : List ε)
  | completed (success : Bool) (out : List ε)
  | failed
  | refused

def Observation.out : Observation ι ε → List ε
  | .step _ out | .answered out | .completed _ out => out
  | .failed | .refused => []

/-- The call released the front of the queue, and at its end perhaps some loose effects. -/
def Releases (rules : Rules ι ε) (items : List ι) (out : List ε) (left : Option (List ι)) : Prop :=
  ∃ sent loose, out = sent ++ loose ∧ (∀ effect ∈ loose, rules.loose effect) ∧
    Released rules items sent left

/-- Without an open barrier a call releases the front of its own queue; with one, only
a successful completion releases the front of what was left. A failed completion or an
error drops it. -/
def Gated (rules : Rules ι ε) : Option (List ι) → List (Observation ι ε) → Prop
  | _, [] => True
  | none, .step items out :: rest =>
    ∃ left, Releases rules items out left ∧ Gated rules left rest
  | some _, .step _ _ :: _ => False
  | none, .answered out :: rest =>
    (∀ effect ∈ out, ∀ item, ¬ rules.barrier item effect) ∧ Gated rules none rest
  | some _, .answered _ :: _ => False
  | some held, .completed true out :: rest =>
    ∃ left, Releases rules held out left ∧ Gated rules left rest
  | some _, .completed false out :: rest => out = [] ∧ Gated rules none rest
  | none, .completed _ out :: rest => out = [] ∧ Gated rules none rest
  | _, .failed :: rest => Gated rules none rest
  | some held, .refused :: rest => Gated rules (some held) rest
  | none, .refused :: _ => False

theorem Released.append_items {out more : List ε} {items : List ι} {rest : List ι} {left : Option (List ι)}
    (first : Released rules items out none) (second : Released rules rest more left) :
    Released rules (items ++ rest) (out ++ more) left := by
  generalize ended : (none : Option (List ι)) = state at first
  induction first with
  | done => exact second
  | @item item out₁ more₁ new rest₁ left₁ emitted behind ih =>
    rw [List.append_assoc, List.cons_append]
    refine .item emitted ?_
    rw [← List.append_assoc]
    exact ih ended
  | stop barrier => cases ended

end Outbox
