import Mathlib.Logic.Function.Basic
import Mathlib.Order.Defs.Unbundled

/-! Runs of a partial, labelled step function. A step that is not enabled is
none. A guarded run takes only steps whose state and label meet a guard; the
guard True gives plain reachability. -/
namespace Transition

universe u v

variable {σ : Type u} {α : Type v}

def run (step : σ → α → Option σ) (s : σ) : List α → Option σ
  | [] => some s
  | a :: as => (step s a).bind fun t => run step t as

/-- The states reached from `init` by steps that all meet the guard. -/
inductive Guarded (step : σ → α → Option σ) (guard : σ → α → Prop) (init : σ → Prop) : σ → Prop
  | start {s : σ} (h : init s) : Guarded step guard init s
  | step {s t : σ} {a : α} (h : Guarded step guard init s) (ok : guard s a)
      (next : step s a = some t) : Guarded step guard init t

abbrev Reachable (step : σ → α → Option σ) (init : σ → Prop) : σ → Prop :=
  Guarded step (fun _ _ => True) init

variable {step : σ → α → Option σ} {guard : σ → α → Prop} {init : σ → Prop}

@[simp] theorem run_nil (s : σ) : run step s [] = some s := rfl

@[simp] theorem run_cons (s : σ) (a : α) (as : List α) :
    run step s (a :: as) = (step s a).bind fun t => run step t as := rfl

theorem run_append (s : σ) (as bs : List α) :
    run step s (as ++ bs) = (run step s as).bind fun t => run step t bs := by
  induction as generalizing s with
  | nil => rfl
  | cons a as ih =>
    simp only [List.cons_append, run_cons, Option.bind_assoc]
    exact Option.bind_congr fun t _ => ih t

/-- What holds at the start and survives every guarded step holds throughout. -/
theorem guarded_invariant {I : σ → Prop} (first : ∀ s, init s → I s)
    (keep : ∀ s a t, I s → guard s a → step s a = some t → I t)
    {s : σ} (h : Guarded step guard init s) : I s := by
  induction h with
  | start h => exact first _ h
  | step _ ok next ih => exact keep _ _ _ ih ok next

/-- Along a guarded run from `s`, a preorder that each step respects relates
`s` to every state reached, given an invariant the steps may rely on. -/
theorem guarded_relation {I : σ → Prop} {R : σ → σ → Prop} (refl : ∀ s, R s s)
    (trans : ∀ s t w, R s t → R t w → R s w)
    (keep : ∀ s a t, I s → guard s a → step s a = some t → I t ∧ R s t)
    {s t : σ} (start : I s) (h : Guarded step guard (· = s) t) : I t ∧ R s t := by
  induction h with
  | start e => exact e.symm ▸ ⟨start, refl s⟩
  | step _ ok next ih =>
    have moved := keep _ _ _ ih.1 ok next
    exact ⟨moved.1, trans _ _ _ ih.2 moved.2⟩

theorem guarded_trans {s t : σ} (h : Guarded step guard init s)
    (k : Guarded step guard (· = s) t) : Guarded step guard init t := by
  induction k with
  | start e => exact e ▸ h
  | step _ ok next ih => exact .step ih ok next

theorem guarded_mono {weaker : σ → α → Prop} (imp : ∀ s a, guard s a → weaker s a) {s : σ}
    (h : Guarded step guard init s) : Guarded step weaker init s := by
  induction h with
  | start h => exact .start h
  | step _ ok next ih => exact .step ih (imp _ _ ok) next

theorem reachable_of_run {s t : σ} (as : List α) (start : init s)
    (h : run step s as = some t) : Reachable step init t := by
  induction as generalizing s init with
  | nil => exact Option.some.inj h ▸ .start start
  | cons a as ih =>
    obtain ⟨w, hw, ht⟩ := Option.bind_eq_some_iff.mp h
    have onward : Reachable step (· = w) t := ih rfl ht
    exact guarded_trans (.step (.start start) trivial hw) onward

def runGuarded (step : σ → α → Option σ) (guard : σ → α → Prop)
    [∀ s a, Decidable (guard s a)] (s : σ) : List α → Option σ
  | [] => some s
  | a :: as => if guard s a then (step s a).bind fun t => runGuarded step guard t as else none

theorem guarded_of_run [∀ s a, Decidable (guard s a)] {s t : σ} (as : List α) (start : init s)
    (h : runGuarded step guard s as = some t) : Guarded step guard init t := by
  induction as generalizing s init with
  | nil => exact Option.some.inj h ▸ .start start
  | cons a as ih =>
    simp only [runGuarded] at h
    split at h
    · rename_i ok
      obtain ⟨w, hw, ht⟩ := Option.bind_eq_some_iff.mp h
      have onward : Guarded step guard (· = w) t := ih rfl ht
      exact guarded_trans (.step (.start start) ok hw) onward
    · cases h

end Transition
