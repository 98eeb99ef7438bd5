import Plexichat.Library.Caches

/-! Computations that put questions to whoever runs them and go on with the answers. An
oracle answers from what it knows and stops at the first question it cannot answer; a
handler answers from a state, which it may change. -/

universe u v w x

inductive Query (κ : Type u) (ν : Type v) (α : Type w) where
  | done (r : α)
  | ask (k : κ) (next : ν → Query κ ν α)

namespace Query
open Memo

variable {κ : Type u} {ν : Type v} {α : Type w} {β : Type x} {σ : Type x}

def bind (q : Query κ ν α) (f : α → Query κ ν β) : Query κ ν β :=
  match q with
  | done r => f r
  | ask k next => ask k fun a => (next a).bind f

instance : Monad (Query κ ν) where
  pure := done
  bind := bind

def run (oracle : κ → Option ν) : Query κ ν α → Option α
  | done r => some r
  | ask k next => (oracle k).bind fun a => run oracle (next a)

def asked (oracle : κ → Option ν) : Query κ ν α → List κ
  | done _ => []
  | ask k next => k :: ((oracle k).map fun a => asked oracle (next a)).getD []

variable {oracle wiser : κ → Option ν}

@[simp] theorem asked_single (oracle : κ → Option ν) (k : κ) :
    asked oracle (ask k done) = [k] := by
  cases answer : oracle k <;> simp [asked, answer]

theorem run_mono (h : Coherent oracle wiser) {q : Query κ ν α} {r : α}
    (ran : run oracle q = some r) : run wiser q = some r := by
  induction q with
  | done _ => exact ran
  | ask k next ih =>
    obtain ⟨a, answer, rest⟩ := Option.bind_eq_some_iff.mp ran
    exact Option.bind_eq_some_iff.mpr ⟨a, h k a answer, ih a rest⟩

theorem asked_subset (h : Coherent oracle wiser) (q : Query κ ν α) :
    asked oracle q ⊆ asked wiser q := by
  induction q with
  | done _ => exact List.Subset.refl _
  | ask k next ih =>
    refine List.cons_subset_cons k ?_
    cases answer : oracle k with
    | none => exact List.nil_subset _
    | some a => simpa [h k a answer] using ih a

/-- An oracle that can finish the run knows all its questions. -/
theorem asked_eq (h : Coherent oracle wiser) {q : Query κ ν α} {r : α}
    (ran : run oracle q = some r) : asked wiser q = asked oracle q := by
  induction q with
  | done _ => rfl
  | ask k next ih =>
    obtain ⟨a, answer, rest⟩ := Option.bind_eq_some_iff.mp ran
    simp [asked, answer, h k a answer, ih a rest]

def serve (handler : κ → σ → Option ν × σ) : Query κ ν α → σ → Option α × σ
  | done r, s => (some r, s)
  | ask k next, s =>
    match handler k s with
    | (some a, t) => serve handler (next a) t
    | (none, t) => (none, t)

theorem serve_single (handler : κ → σ → Option ν × σ) (k : κ) (s : σ) :
    serve handler (ask k done) s = handler k s := by
  rcases outcome : handler k s with ⟨_ | a, t⟩ <;> simp [serve, outcome]

/-- A run that stops stops whatever it is part of. -/
theorem serve_bind_stopped {handler : κ → σ → Option ν × σ} {q : Query κ ν α} {s t : σ}
    (stopped : serve handler q s = (none, t)) (f : α → Query κ ν β) :
    serve handler (q.bind f) s = (none, t) := by
  induction q generalizing s with
  | done r => cases stopped
  | ask k next ih =>
    rw [serve] at stopped
    rw [Query.bind, serve]
    rcases outcome : handler k s with ⟨_ | a, u⟩
    · rw [outcome] at stopped
      exact congrArg (Prod.mk none) (Prod.mk.inj stopped).2
    · rw [outcome] at stopped
      exact ih a stopped

theorem serve_keeps {handler : κ → σ → Option ν × σ} {P : σ → Prop}
    (keep : ∀ k s, P s → P (handler k s).2) (q : Query κ ν α) {s : σ} (h : P s) :
    P (serve handler q s).2 := by
  induction q generalizing s with
  | done _ => exact h
  | ask k next ih =>
    have first : P (handler k s).2 := keep k s h
    simp only [serve]
    rcases outcome : handler k s with ⟨_ | a, t⟩
    · simpa [outcome] using first
    · exact ih a (by simpa [outcome] using first)

/-- A handler followed from two related states. While the first one fits, each question
of the oracle's run gets the oracle's answer, the states stay related, and what a question
leaves in the second state stays there; so it is with the whole run. -/
theorem serve_follows {handler : κ → σ → Option ν × σ} {R : σ → σ → Prop} {F : σ → Prop}
    {L : κ → σ → Prop} (back : ∀ k s, F (handler k s).2 → F s)
    (stays : ∀ j k t, L j t → L j (handler k t).2) {q : Query κ ν α} {r : α}
    (ran : run oracle q = some r)
    (each : ∀ k ∈ asked oracle q, ∀ a, oracle k = some a → ∀ s t, R s t → F (handler k s).2 →
      (handler k s).1 = some a ∧ (handler k t).1 = some a ∧
        R (handler k s).2 (handler k t).2 ∧ L k (handler k t).2)
    {s t : σ} (related : R s t) (fits : F (serve handler q s).2) :
    (serve handler q s).1 = some r ∧ (serve handler q t).1 = some r ∧
      R (serve handler q s).2 (serve handler q t).2 ∧
      ∀ k ∈ asked oracle q, L k (serve handler q t).2 := by
  induction q generalizing s t with
  | done _ => exact ⟨ran, ran, related, fun _ never => nomatch never⟩
  | ask k next ih =>
    obtain ⟨a, answer, rest⟩ := Option.bind_eq_some_iff.mp ran
    have questions : asked oracle (ask k next) = k :: asked oracle (next a) := by
      simp [asked, answer]
    -- a state that fits at the end fitted after the first answer
    have early : F (handler k s).2 := by
      simp only [serve] at fits
      rcases outcome : handler k s with ⟨_ | b, s'⟩
      · simpa [outcome] using fits
      · rw [outcome] at fits
        by_contra never
        exact serve_keeps (P := fun s => ¬ F s) (fun j u out inside => out (back j u inside))
          (next b) never fits
    obtain ⟨first, second, still, left⟩ :=
      each k (questions ▸ List.mem_cons_self ..) a answer s t related early
    have after : ∀ u, (handler k u).1 = some a →
        serve handler (ask k next) u = serve handler (next a) (handler k u).2 := by
      intro u given
      simp only [serve]
      rcases outcome : handler k u with ⟨_ | b, u'⟩
      · simp [outcome] at given
      · cases Option.some.inj ((congrArg Prod.fst outcome).symm.trans given)
        rfl
    rw [after s first] at fits ⊢
    rw [after t second]
    obtain ⟨r₁, r₂, still', lefts⟩ := ih a rest
      (fun j question => each j (questions ▸ List.mem_cons_of_mem k question)) still fits
    refine ⟨r₁, r₂, still', ?_⟩
    intro j question
    rw [questions] at question
    cases question with
    | head => exact serve_keeps (stays k) (next a) left
    | tail _ later => exact lefts j later

/-! ### Runs that are stopped at a question -/

/-- Where the handler stops at a question, what waits for the answer is kept with the reason. -/
def suspend {ε : Type v} (handler : κ → σ → Except ε ν × σ) :
    Query κ ν α → σ → Except (ε × (ν → Query κ ν α)) α × σ
  | done r, s => (.ok r, s)
  | ask k next, s =>
    match handler k s with
    | (.ok a, t) => suspend handler (next a) t
    | (.error e, t) => (.error (e, next), t)

/-- `P` of the state after a result and `Q` of the reason and the state of a stop. -/
def Outcome {ε : Type*} {γ : Type*} (P : σ → Prop) (Q : ε → σ → Prop) : Except ε γ × σ → Prop
  | (.ok _, t) => P t
  | (.error e, t) => Q e t

theorem suspend_outcome {ε : Type v} {handler : κ → σ → Except ε ν × σ} {P : σ → Prop}
    {Q : ε → σ → Prop} (each : ∀ k s, P s → Outcome P Q (handler k s)) (q : Query κ ν α) {s : σ}
    (h : P s) : Outcome P (fun e t => Q e.1 t) (suspend handler q s) := by
  induction q generalizing s with
  | done _ => exact h
  | ask k next ih =>
    have first := each k s h
    unfold suspend
    rcases outcome : handler k s with ⟨e | a, t⟩
    · rw [outcome] at first
      exact first
    · rw [outcome] at first
      exact ih a first

/-- A handler that only differs where the other one stops: the rest of the run is served from
what it makes of the stop. -/
theorem serve_suspend {ε : Type v} {handler : κ → σ → Except ε ν × σ}
    {full : κ → σ → Option ν × σ} {R : ε → σ → Option ν × σ → Prop}
    (agree : ∀ k s a t, handler k s = (.ok a, t) → full k s = (some a, t))
    (differ : ∀ k s e t, handler k s = (.error e, t) → R e t (full k s))
    (q : Query κ ν α) (s : σ) :
    match suspend handler q s with
    | (.ok r, t) => serve full q s = (some r, t)
    | (.error (e, next), t) => ∃ answer u, R e t (answer, u) ∧
        serve full q s = match answer with
          | some a => serve full (next a) u
          | none => (none, u) := by
  induction q generalizing s with
  | done _ => rfl
  | ask k next ih =>
    unfold suspend
    rcases outcome : handler k s with ⟨e | a, t⟩
    · refine ⟨(full k s).1, (full k s).2, differ k s e t outcome, ?_⟩
      rw [serve]
      rcases full k s with ⟨_ | a, u⟩ <;> rfl
    · have same : serve full (ask k next) s = serve full (next a) t := by
        rw [serve, agree k s a t outcome]
      dsimp only
      rw [same]
      exact ih a t

theorem serve_oracle {handler : κ → σ → Option ν × σ} {P : σ → Prop}
    (each : ∀ k s, P s → (handler k s).1 = oracle k ∧ P (handler k s).2) (q : Query κ ν α) {s : σ}
    (h : P s) : (serve handler q s).1 = run oracle q ∧ P (serve handler q s).2 := by
  induction q generalizing s with
  | done _ => exact ⟨rfl, h⟩
  | ask k next ih =>
    obtain ⟨same, keeps⟩ := each k s h
    rw [serve, run, ← same]
    rcases outcome : handler k s with ⟨_ | a, t⟩
    · rw [outcome] at keeps
      exact ⟨rfl, keeps⟩
    · rw [outcome] at keeps
      exact ih a keeps

end Query
