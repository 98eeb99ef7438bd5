import Mathlib.Algebra.BigOperators.Group.Finset.Piecewise
import Mathlib.Algebra.Order.BigOperators.Group.Finset
import Plexichat.Library.Transition

/-! Calls that run side by side over one shared state. A statement sees the
shared state and the variables of its own call, and leaves the other calls where
they are. -/
namespace Interleaving
open Transition

universe u v w x

variable {ι : Type u} {σ : Type v} {π : Type w} {α : Type x}

structure State (ι : Type u) (σ : Type v) (π : Type w) where
  shared : σ
  pc : ι → π

section Steps

variable [DecidableEq ι]

def State.after (s : State ι σ π) (i : ι) (r : σ × π) : State ι σ π :=
  ⟨r.1, Function.update s.pc i r.2⟩

def step (next : σ → π → α → Option (σ × π)) (s : State ι σ π) (a : ι × α) :
    Option (State ι σ π) := (next s.shared (s.pc a.1) a.2).map (s.after a.1)

theorem step_eq_some {next : σ → π → α → Option (σ × π)} {s t : State ι σ π} {a : ι × α} :
    step next s a = some t ↔ ∃ r, next s.shared (s.pc a.1) a.2 = some r ∧ s.after a.1 r = t :=
  Option.map_eq_some_iff

@[simp] theorem after_self (s : State ι σ π) (i : ι) (r : σ × π) : (s.after i r).pc i = r.2 := by
  show Function.update s.pc i r.2 i = r.2
  rw [Function.update_self]

theorem after_other (s : State ι σ π) {i j : ι} (other : j ≠ i) (r : σ × π) :
    (s.after i r).pc j = s.pc j := by
  show Function.update s.pc i r.2 j = s.pc j
  rw [Function.update_of_ne other]

theorem exists_after {s : State ι σ π} {i : ι} {r : σ × π} {K : π → Prop}
    (found : ∃ j, K (s.pc j)) (stays : K (s.pc i) → K r.2) : ∃ j, K ((s.after i r).pc j) := by
  obtain ⟨j, here⟩ := found
  by_cases same : j = i
  · subst same
    exact ⟨j, (after_self s j r).symm ▸ stays here⟩
  · exact ⟨j, (after_other s same r).symm ▸ here⟩

theorem exists_before {s : State ι σ π} {i : ι} {r : σ × π} {K : π → Prop}
    (found : ∃ j, K ((s.after i r).pc j)) : K r.2 ∨ ∃ j, K (s.pc j) := by
  obtain ⟨j, here⟩ := found
  by_cases same : j = i
  · rw [same, after_self] at here
    exact .inl here
  · rw [after_other s same] at here
    exact .inr ⟨j, here⟩

/-- A call that goes on until it stops, and comes nearer with each statement, stops. -/
theorem runs_to_stop {next : σ → π → α → Option (σ × π)} {a : α} {I : σ → π → Prop}
    {stop : π → Prop} (left : σ → π → Nat)
    (progress : ∀ c p, I c p → ¬ stop p →
      ∃ r, next c p a = some r ∧ I r.1 r.2 ∧ left r.1 r.2 < left c p)
    (s : State ι σ π) (i : ι) (h : I s.shared (s.pc i)) :
    ∃ n t, run (step next) s (List.replicate n (i, a)) = some t ∧ stop (t.pc i) := by
  induction bound : left s.shared (s.pc i) using Nat.strong_induction_on generalizing s with
  | _ bound ih =>
    by_cases stopped : stop (s.pc i)
    · exact ⟨0, s, rfl, stopped⟩
    · obtain ⟨r, moved, kept, less⟩ := progress _ _ h stopped
      obtain ⟨n, t, ran, last⟩ := ih (left r.1 r.2) (bound ▸ less) (s.after i r)
        ((after_self s i r).symm ▸ kept) (by rw [after_self]; rfl)
      refine ⟨n + 1, t, ?_, last⟩
      rw [List.replicate_succ, run_cons, step_eq_some.mpr ⟨r, moved, rfl⟩]
      exact ran

end Steps

structure Holds (I : σ → Prop) (P : σ → π → Prop) (Q : π → π → Prop) (s : State ι σ π) : Prop where
  shared : I s.shared
  each : ∀ i, P s.shared (s.pc i)
  pair : ∀ i j, i ≠ j → Q (s.pc i) (s.pc j)

variable [DecidableEq ι] {next : σ → π → α → Option (σ × π)} {init : State ι σ π → Prop}
  {guard : State ι σ π → ι × α → Prop} {I : σ → Prop} {P : σ → π → Prop} {Q : π → π → Prop}

theorem Holds.after {s : State ι σ π} (h : Holds I P Q s) {i : ι} {r : σ × π} (shared : I r.1)
    (own : P r.1 r.2) (others : ∀ j, j ≠ i → P r.1 (s.pc j))
    (pairs : ∀ j, j ≠ i → Q r.2 (s.pc j) ∧ Q (s.pc j) r.2) : Holds I P Q (s.after i r) := by
  refine ⟨shared, ?_, ?_⟩
  · intro j
    show P r.1 _
    by_cases here : j = i
    · rw [here, after_self]
      exact own
    · rw [after_other s here]
      exact others j here
  · intro j k apart
    by_cases here : j = i
    · have there : k ≠ i := fun same => apart (here.trans same.symm)
      rw [here, after_self, after_other s there]
      exact (pairs k there).1
    · rw [after_other s here]
      by_cases there : k = i
      · rw [there, after_self]
        exact (pairs j here).2
      · rw [after_other s there]
        exact h.pair j k apart

/-- What holds at the start and is kept by every statement, of its own call and of the
others, holds throughout. -/
theorem holds_throughout (first : ∀ s, init s → Holds I P Q s)
    (keep : ∀ s i a r, Holds I P Q s → guard s (i, a) → next s.shared (s.pc i) a = some r →
      I r.1 ∧ P r.1 r.2 ∧ ∀ j, j ≠ i → P r.1 (s.pc j) ∧ Q r.2 (s.pc j) ∧ Q (s.pc j) r.2)
    {s : State ι σ π} (h : Guarded (step next) guard init s) : Holds I P Q s := by
  refine guarded_invariant first ?_ h
  intro s a t holds ok moved
  obtain ⟨r, local_step, rfl⟩ := step_eq_some.mp moved
  obtain ⟨shared, own, others⟩ := keep s a.1 a.2 r holds ok local_step
  exact holds.after shared own (fun j other => (others j other).1) fun j other => (others j other).2

section Single

variable {κ : Type x} (held : π → Option κ)

def Single (s : State ι σ π) : Prop :=
  ∀ i j x, held (s.pc i) = some x → held (s.pc j) = some x → i = j

variable {held}

theorem Single.after {s : State ι σ π} (single : Single held s) {i : ι} {r : σ × π}
    (taken : ∀ x, held r.2 = some x → held (s.pc i) = some x ∨ ∀ j, held (s.pc j) ≠ some x) :
    Single held (s.after i r) := by
  have before : ∀ {j x}, held ((s.after i r).pc j) = some x →
      held (s.pc j) = some x ∨ (j = i ∧ ∀ k, held (s.pc k) ≠ some x) := by
    intro j x here
    by_cases own : j = i
    · subst own
      rw [after_self] at here
      exact (taken x here).imp_right fun free => ⟨rfl, free⟩
    · exact .inl (after_other s own r ▸ here)
  intro j k x left right
  rcases before left with kept | ⟨own, free⟩
  · rcases before right with same | ⟨_, free⟩
    · exact single j k x kept same
    · exact absurd kept (free j)
  · rcases before right with kept | ⟨same, _⟩
    · exact absurd kept (free k)
    · exact own.trans same.symm

end Single

variable [Fintype ι]

def tally (weight : π → Nat) (s : State ι σ π) : Nat := ∑ i, weight (s.pc i)

omit [DecidableEq ι] in
theorem weight_le_tally (weight : π → Nat) (s : State ι σ π) (i : ι) :
    weight (s.pc i) ≤ tally weight s :=
  Finset.single_le_sum (f := fun j => weight (s.pc j)) (fun _ _ => Nat.zero_le _)
    (Finset.mem_univ i)

theorem tally_after (weight : π → Nat) (s : State ι σ π) (i : ι) (r : σ × π) :
    tally weight (s.after i r) + weight (s.pc i) = tally weight s + weight r.2 := by
  have before := Finset.add_sum_erase Finset.univ (fun j => weight (s.pc j)) (Finset.mem_univ i)
  have moved := Finset.add_sum_erase Finset.univ (fun j => weight ((s.after i r).pc j))
    (Finset.mem_univ i)
  have others : ∑ j ∈ Finset.univ.erase i, weight ((s.after i r).pc j) =
      ∑ j ∈ Finset.univ.erase i, weight (s.pc j) := by
    apply Finset.sum_congr rfl
    intro j erased
    rw [after_other s (Finset.ne_of_mem_erase erased)]
  rw [after_self, others] at moved
  unfold tally
  omega

/-- A law on the shared state and the tally, kept by each statement when the tally
moves by what the statement changes of its own weight. -/
theorem tally_invariant {J : σ → Nat → Prop} {weight : π → Nat}
    (first : ∀ s, init s → J s.shared (tally weight s))
    (keep : ∀ c p a r n, J c (n + weight p) → next c p a = some r → J r.1 (n + weight r.2))
    {s : State ι σ π} (h : Guarded (step next) guard init s) : J s.shared (tally weight s) := by
  refine guarded_invariant (I := fun s => J s.shared (tally weight s)) first ?_ h
  intro s a t law _ moved
  obtain ⟨r, local_step, rfl⟩ := step_eq_some.mp moved
  obtain ⟨rest, split⟩ := Nat.exists_eq_add_of_le' (weight_le_tally weight s a.1)
  have onward := tally_after weight s a.1 r
  have total : tally weight (s.after a.1 r) = rest + weight r.2 := by omega
  rw [total]
  rw [split] at law
  exact keep _ _ _ _ rest law local_step

end Interleaving
