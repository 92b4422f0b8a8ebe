import CrashCourse.Core.Envelopes

/-!
How far a decoder gets. `Takes` bounds the bytes that it takes and `Ends` those that
are left when one that reads to the end starts.
-/

namespace CrashCourse.Core

variable {α β ε : Type}

@[simp] theorem ok_bind {value : α} {rest : α → Except ε β} : (Except.ok value >>= rest) = rest value := rfl

@[simp] theorem error_bind {error : ε} {rest : α → Except ε β} : (Except.error error >>= rest) = .error error := rfl

@[simp] theorem map_bind {γ : Type} {result : Except ε α} {change : α → β} {rest : β → Except ε γ} :
    (result.map change >>= rest) = result >>= fun found => rest (change found) := by
  cases result <;> rfl

@[simp] theorem bind_ok_iff {first : Except ε α} {rest : α → Except ε β} {value : β} :
    (first >>= rest) = .ok value ↔ ∃ middle, first = .ok middle ∧ rest middle = .ok value := by
  cases first with
  | error error | ok middle => simp [bind, Except.bind]

@[simp] theorem map_ok_iff {result : Except ε α} {change : α → β} {value : β} :
    result.map change = .ok value ↔ ∃ found, result = .ok found ∧ value = change found := by
  cases result with
  | error error => simp [Except.map]
  | ok found => simp [Except.map, eq_comm]

@[simp] theorem fmap_ok_iff {result : Except ε α} {change : α → β} {value : β} :
    change <$> result = .ok value ↔ ∃ found, result = .ok found ∧ value = change found := map_ok_iff

@[simp] theorem exists_unit_ok_iff {result : Except ε Unit} : (∃ value, result = .ok value) ↔ result = .ok () := by
  simp [Unique.exists_iff]

@[simp] theorem refuse_ok_iff {refused : Prop} [Decidable refused] {error : ε} {rest : Except ε α} {value : α} :
    (if refused then .error error else rest) = .ok value ↔ ¬ refused ∧ rest = .ok value := by
  by_cases holds : refused
  · simp [holds]
  · simp [holds]

theorem guard_ok {refused : Prop} [Decidable refused] {error : ε} {after : β → Except ε α} {rest : Except ε α}
    {value : α} (done : (if refused then throw error >>= after else rest) = .ok value) : ¬ refused ∧ rest = .ok value :=
  refuse_ok_iff.mp done

theorem forM_ok_iff {check : α → Except ε Unit} {items : List α} :
    items.forM check = .ok () ↔ ∀ item ∈ items, check item = .ok () := by
  induction items with
  | nil => exact ⟨fun _ item held => absurd held List.not_mem_nil, fun _ => rfl⟩
  | cons item items ih =>
    change (check item >>= fun _ => items.forM check) = .ok () ↔ _
    rw [bind_ok_iff, List.forall_mem_cons, ← ih]
    constructor
    · rintro ⟨_, first, rest⟩
      exact ⟨first, rest⟩
    · exact fun both => ⟨(), both⟩

theorem forM_congr {check check' : α → Except ε Unit} {items : List α}
    (same : ∀ item ∈ items, check item = check' item) : items.forM check = items.forM check' := by
  induction items with
  | nil => rfl
  | cons item items ih =>
    rw [List.forall_mem_cons] at same
    exact congrArg₂ (fun first rest => first >>= fun _ => rest) same.1 (ih same.2)

theorem mapM_congr {change change' : α → Except ε β} {items : List α}
    (same : ∀ item ∈ items, change item = change' item) : items.mapM change = items.mapM change' := by
  induction items with
  | nil => rfl
  | cons item items ih =>
    rw [List.forall_mem_cons] at same
    rw [List.mapM_cons, List.mapM_cons, same.1, ih same.2]

@[simp] theorem mapError_ok_iff {ε' : Type} {result : Except ε α} {widen : ε → ε'} {value : α} :
    result.mapError widen = .ok value ↔ result = .ok value := by
  cases result with
  | error error | ok found => simp [Except.mapError]

theorem toOption_eq_some {result : Except ε α} {value : α} : result.toOption = some value ↔ result = .ok value := by
  cases result with
  | error error | ok found => simp [Except.toOption]

theorem isOk_iff {result : Except ε α} : result.isOk = true ↔ ∃ value, result = .ok value := by
  cases result with
  | error error | ok value => simp [Except.isOk, Except.toBool]

namespace Dec
section Takes
variable {α β ε : Type} {most more : Nat}

@[simp] theorem bind_ok_iff {first : StateT Dec (Except ε) α} {second : α → StateT Dec (Except ε) β} {dec last : Dec}
    {value : β} : (first >>= second) dec = .ok (value, last) ↔
      ∃ middle next, first dec = .ok (middle, next) ∧ second middle next = .ok (value, last) := by
  change (first dec >>= fun pair => second pair.1 pair.2) = _ ↔ _
  cases step : first dec with
  | error error => simp [bind, Except.bind]
  | ok pair =>
    obtain ⟨middle, next⟩ := pair
    simp [bind, Except.bind]

/-- The decoder takes so many bytes at most. -/
def Takes (most : Nat) (decoder : StateT Dec (Except ε) α) : Prop :=
  ∀ dec last value, decoder dec = .ok (value, last) → last.bytes = dec.bytes ∧ last.offset ≤ dec.offset + most

/-- The decoder succeeds only if no more than so many bytes are left. -/
def Ends (most : Nat) (decoder : StateT Dec (Except ε) α) : Prop :=
  ∀ dec last value, decoder dec = .ok (value, last) → dec.bytes.length ≤ dec.offset + most

variable {decoder : StateT Dec (Except ε) α} {rest : α → StateT Dec (Except ε) β}

theorem Takes.bind (first : Takes most decoder) (second : ∀ value, Takes more (rest value)) :
    Takes (most + more) (decoder >>= rest) := by
  intro dec last value done
  obtain ⟨middle, next, begun, done⟩ := bind_ok_iff.mp done
  obtain ⟨same, reached⟩ := first _ _ _ begun
  obtain ⟨same', reached'⟩ := second middle _ _ _ done
  exact ⟨same'.trans same, by omega⟩

theorem Takes.bindEnds (first : Takes most decoder) (second : ∀ value, Ends more (rest value)) :
    Ends (most + more) (decoder >>= rest) := by
  intro dec last value done
  obtain ⟨middle, next, begun, done⟩ := bind_ok_iff.mp done
  obtain ⟨same, reached⟩ := first _ _ _ begun
  have ended := second middle _ _ _ done
  rw [same] at ended
  omega

theorem Ends.bind (first : Ends most decoder) (rest : α → StateT Dec (Except ε) β) : Ends most (decoder >>= rest) := by
  intro dec last value done
  obtain ⟨middle, next, begun, -⟩ := bind_ok_iff.mp done
  exact first _ _ _ begun

theorem Takes.lift (result : Except ε α) : Takes 0 (liftM result : StateT Dec (Except ε) α) := by
  intro dec last value done
  cases result with
  | error error => cases done
  | ok found =>
    obtain ⟨rfl, rfl⟩ := Prod.mk.inj (Except.ok.inj done)
    exact ⟨rfl, le_rfl⟩

theorem Takes.take (length : Nat) : Takes length (take length) := by
  intro dec last value done
  obtain ⟨-, rfl, -⟩ := take_ok done
  exact ⟨rfl, le_rfl⟩

theorem Takes.number (width : Nat) {change : Bytes → α} : Takes width (do return change (← Dec.take width) : Decode α) :=
  (Takes.take width).bind fun _ => Takes.lift (.ok _)

theorem Takes.bytesField : Takes (4 + maxCodecBytes) Dec.bytesField := by
  intro dec last value done
  obtain ⟨length, next, read, done⟩ := bind_ok_iff.mp done
  obtain ⟨same, reached⟩ := Takes.number 4 _ _ _ read
  by_cases large : length > maxCodecBytes
  · rw [if_pos large] at done
    cases done
  · rw [if_neg large] at done
    obtain ⟨-, rfl, -⟩ := take_ok done
    exact ⟨same, by change next.offset + length ≤ _; omega⟩

theorem Takes.mono (takes : Takes most decoder) (fewer : most ≤ more) : Takes more decoder := by
  intro dec last value done
  obtain ⟨same, reached⟩ := takes _ _ _ done
  exact ⟨same, by omega⟩

theorem Takes.of_fails (fails : ∀ dec pair, decoder dec ≠ .ok pair) : Takes most decoder :=
  fun dec _ _ done => absurd done (fails dec _)

theorem Takes.guard {refused : Prop} [Decidable refused] {decoder' : StateT Dec (Except ε) α}
    (fails : ∀ dec pair, decoder' dec ≠ .ok pair) (takes : Takes most decoder) :
    Takes most (if refused then decoder' else decoder) := by
  split
  · exact .of_fails fails
  · exact takes

theorem ends_finish : Ends 0 finish := by
  intro dec last value done
  unfold finish at done
  split at done
  next same => exact same.ge
  next => cases done

end Takes
end Dec
end CrashCourse.Core
