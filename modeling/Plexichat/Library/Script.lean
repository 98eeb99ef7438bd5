import Mathlib.Logic.Basic

/-! Scripts of statements over a state. A statement may be refused, and the script then stops
where it is. A specification says what holds after a result and what where the script stopped. -/

universe u v w x

def Script (σ : Type u) (α : Type v) := σ → Option α × σ

namespace Script

variable {σ : Type u} {α β : Type v} {ι : Type w}

instance : Monad (Script σ) where
  pure a := fun s => (some a, s)
  bind p f := fun s =>
    match p s with
    | (some a, s) => f a s
    | (none, s) => (none, s)

def read (f : σ → α) : Script σ α := fun s => (some (f s), s)

def statement (refused : σ → Bool) (change : σ → σ) : Script σ PUnit := fun s =>
  if refused s then (none, s) else (some ⟨⟩, change s)

def forEach (f : ι → Script σ PUnit) : List ι → Script σ PUnit
  | [] => pure ⟨⟩
  | a :: l => do
    f a
    forEach f l

def After (post : α → σ → Prop) (raised : σ → Prop) : Option α × σ → Prop
  | (some a, s) => post a s
  | (none, s) => raised s

def Triple (pre : σ → Prop) (p : Script σ α) (post : α → σ → Prop) (raised : σ → Prop) : Prop :=
  ∀ s, pre s → After post raised (p s)

section Rules

variable {pre mid : σ → Prop} {p : Script σ α} {f : α → Script σ β} {post : α → σ → Prop}
  {next : β → σ → Prop} {raised : σ → Prop}

theorem triple_pure {a : α} (h : ∀ s, pre s → post a s) :
    Triple pre (pure a : Script σ α) post raised := h

theorem Triple.bind (h : Triple pre p post raised) (k : ∀ a, Triple (post a) (f a) next raised) :
    Triple pre (p >>= f) next raised := by
  intro s start
  have first := h s start
  show After next raised (match p s with
    | (some a, s) => f a s
    | (none, s) => (none, s))
  cases result : p s with
  | mk value t =>
    rw [result] at first
    cases value with
    | none => exact first
    | some a => exact k a t first

theorem Triple.via (post : α → σ → Prop) (h : Triple pre p post raised)
    (k : ∀ a, Triple (post a) (f a) next raised) : Triple pre (p >>= f) next raised := h.bind k

theorem Triple.weaken {pre' : σ → Prop} {post' : α → σ → Prop} {raised' : σ → Prop}
    (h : Triple pre p post raised) (before : ∀ s, pre' s → pre s)
    (after : ∀ a s, post a s → post' a s) (thrown : ∀ s, raised s → raised' s) :
    Triple pre' p post' raised' := by
  intro s start
  have result := h s (before s start)
  cases value : p s with
  | mk r t =>
    rw [value] at result
    cases r with
    | none => exact thrown t result
    | some a => exact after a t result

theorem Triple.before {pre' : σ → Prop} (h : Triple pre p post raised)
    (before : ∀ s, pre' s → pre s) : Triple pre' p post raised :=
  h.weaken before (fun _ _ h => h) fun _ h => h

theorem Triple.returns {post' : α → σ → Prop} (h : Triple pre p post raised)
    (after : ∀ a s, post a s → post' a s) : Triple pre p post' raised :=
  h.weaken (fun _ h => h) after fun _ h => h

theorem triple_read {g : σ → α} (h : ∀ s, pre s → post (g s) s) :
    Triple pre (read g) post raised := h

theorem triple_statement {refused : σ → Bool} {change : σ → σ} {post : PUnit → σ → Prop}
    (done : ∀ s, pre s → post ⟨⟩ (change s))
    (stopped : ∀ s, pre s → refused s = true → raised s) :
    Triple pre (statement refused change) post raised := by
  intro s start
  unfold statement
  cases refusal : refused s with
  | true => exact stopped s start refusal
  | false => exact done s start

theorem triple_forEach {g : ι → Script σ PUnit} (I : List ι → σ → Prop) (had l : List ι)
    (each : ∀ had, ∀ a ∈ l, Triple (I had) (g a) (fun _ => I (had ++ [a])) raised) :
    Triple (I had) (forEach g l) (fun _ => I (had ++ l)) raised := by
  induction l generalizing had with
  | nil => exact triple_pure fun s h => (List.append_nil had).symm ▸ h
  | cons a l ih =>
    refine (each had a List.mem_cons_self).bind fun _ => ?_
    have rest := ih (had ++ [a]) fun had b h => each had b (List.mem_cons_of_mem a h)
    rwa [List.append_assoc, List.singleton_append] at rest

theorem triple_forEach_keeps {g : ι → Script σ PUnit} {I : σ → Prop} {l : List ι}
    (each : ∀ a ∈ l, Triple I (g a) (fun _ => I) raised) :
    Triple I (forEach g l) (fun _ => I) raised :=
  triple_forEach (fun _ => I) [] l fun _ a h => each a h

theorem Triple.total (h : Triple pre p post raised) (never : ∀ s, ¬ raised s) {s : σ}
    (start : pre s) : ∃ a, (p s).1 = some a ∧ post a (p s).2 := by
  have result := h s start
  cases value : p s with
  | mk r t =>
    rw [value] at result
    cases r with
    | none => exact absurd result (never t)
    | some a => exact ⟨a, rfl, result⟩

theorem Triple.state (h : Triple pre p (fun _ => mid) mid) {s : σ} (start : pre s) :
    mid (p s).2 := by
  have result := h s start
  cases value : p s with
  | mk r t =>
    rw [value] at result
    cases r with
    | none => exact result
    | some a => exact result

theorem Triple.result (h : Triple pre p post raised) {s : σ} (start : pre s) {a : α}
    (returned : (p s).1 = some a) : post a (p s).2 := by
  have result := h s start
  cases value : p s with
  | mk r t =>
    rw [value] at result returned
    cases returned
    exact result

end Rules

end Script
