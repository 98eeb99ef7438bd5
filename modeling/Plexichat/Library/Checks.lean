import Mathlib.Logic.Basic

/-! Functions that check their arguments one after the other and raise the first
failure. Each rule turns a call that returned into the facts it has checked. -/
namespace Checks

universe u v

variable {ε : Type u} {α β : Type v}

/-- `if not p: raise e`. -/
def ensure (p : Prop) [Decidable p] (e : ε) : Except ε PUnit := if p then .ok ⟨⟩ else .error e

def found (x : Option α) (e : ε) : Except ε α :=
  match x with
  | some a => .ok a
  | none => .error e

theorem returned_bind {call : Except ε α} {next : α → Except ε β} {b : β}
    (h : (call >>= next) = .ok b) : ∃ a, call = .ok a ∧ next a = .ok b := by
  cases call with
  | error e => cases h
  | ok a => exact ⟨a, rfl, h⟩

@[simp] theorem pure_eq_ok {a b : α} : (pure a : Except ε α) = .ok b ↔ a = b :=
  ⟨fun h => Except.ok.inj h, fun h => congrArg Except.ok h⟩

@[simp] theorem ensure_eq_ok {p : Prop} [Decidable p] {e : ε} {x : PUnit} :
    ensure p e = .ok x ↔ p := by
  by_cases h : p
  · exact ⟨fun _ => h, fun _ => if_pos h⟩
  · refine ⟨fun returned => ?_, fun hp => absurd hp h⟩
    rw [ensure, if_neg h] at returned
    cases returned

@[simp] theorem found_eq_ok {x : Option α} {e : ε} {a : α} : found x e = .ok a ↔ x = some a := by
  cases x with
  | none => simp [found]
  | some b => simp [found]

@[simp] theorem ensure_bind_eq_ok {p : Prop} [Decidable p] {e : ε} {next : PUnit → Except ε β}
    {b : β} : (ensure p e >>= next) = .ok b ↔ p ∧ next ⟨⟩ = .ok b := by
  constructor
  · intro h
    obtain ⟨_, checked, rest⟩ := returned_bind h
    exact ⟨ensure_eq_ok.mp checked, rest⟩
  · intro h
    rw [ensure, if_pos h.1]
    exact h.2

@[simp] theorem found_bind_eq_ok {x : Option α} {e : ε} {next : α → Except ε β} {b : β} :
    (found x e >>= next) = .ok b ↔ ∃ a, x = some a ∧ next a = .ok b := by
  constructor
  · intro h
    obtain ⟨a, present, rest⟩ := returned_bind h
    exact ⟨a, found_eq_ok.mp present, rest⟩
  · intro h
    obtain ⟨a, rfl, rest⟩ := h
    exact rest

theorem toOption_eq_some {x : Except ε α} {a : α} (h : x.toOption = some a) : x = .ok a := by
  cases x with
  | error e => cases h
  | ok b => rw [Option.some.inj h]

theorem forM_eq_ok {check : α → Except ε PUnit} {xs : List α} {x : PUnit} :
    xs.forM check = .ok x ↔ ∀ a ∈ xs, check a = .ok ⟨⟩ := by
  induction xs with
  | nil => exact ⟨fun _ _ => (nomatch ·), fun _ => rfl⟩
  | cons a xs ih =>
    rw [List.forall_mem_cons, ← ih, List.forM_eq_forM, List.forM_cons]
    constructor
    · intro h
      obtain ⟨_, first, rest⟩ := returned_bind h
      exact ⟨first, rest⟩
    · intro h
      rw [h.1]
      exact h.2

theorem mapM_eq_ok {f : α → Except ε β} {xs : List α} {ys : List β} :
    xs.mapM f = .ok ys ↔ xs.map f = ys.map .ok := by
  induction xs generalizing ys with
  | nil => cases ys <;> simp
  | cons a xs ih =>
    rw [List.mapM_cons, List.map_cons]
    cases step : f a with
    | error e =>
      cases ys with
      | nil => exact iff_of_false (nomatch ·) (nomatch ·)
      | cons b ys => exact iff_of_false (nomatch ·) (by simp)
    | ok b =>
      constructor
      · intro h
        obtain ⟨_, first, h⟩ := returned_bind h
        obtain ⟨bs, rest, h⟩ := returned_bind h
        cases first
        cases h
        rw [ih.mp rest, List.map_cons]
      · intro h
        cases ys with
        | nil => cases h
        | cons c ys =>
          rw [List.map_cons, List.cons.injEq] at h
          obtain ⟨same, rest⟩ := h
          cases same
          rw [ih.mpr rest]
          rfl

theorem mapM_returns {f : α → Except ε β} {xs : List α} (each : ∀ a ∈ xs, ∃ b, f a = .ok b) :
    ∃ ys, xs.mapM f = .ok ys := by
  simp only [mapM_eq_ok]
  induction xs with
  | nil => exact ⟨[], rfl⟩
  | cons a xs ih =>
    rw [List.forall_mem_cons] at each
    obtain ⟨⟨b, first⟩, rest⟩ := each
    obtain ⟨ys, same⟩ := ih rest
    exact ⟨b :: ys, by rw [List.map_cons, List.map_cons, first, same]⟩

end Checks
