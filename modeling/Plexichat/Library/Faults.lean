import Mathlib.Logic.Function.Basic

/-! Programs over named files, of which at most one step fails. Which one it is stands in the
world from the start; a write that fails leaves anything in its file. A specification says what
holds after a result and what after an exception. -/
namespace Faults

universe u v w x

variable {φ : Type u} {β : Type v} {α γ : Type w}

structure World (φ : Type u) (β : Type v) where
  files : φ → Option β
  /-- The number of steps before the one that fails, and what that one leaves. -/
  fault : Option (Nat × Option β)

def Prog (φ : Type u) (β : Type v) (α : Type w) := World φ β → Option α × World φ β

instance : Monad (Prog φ β) where
  pure a := fun s => (some a, s)
  bind p f := fun s =>
    match p s with
    | (some a, s) => f a s
    | (none, s) => (none, s)

def raise : Prog φ β α := fun s => (none, s)

/-- The handler runs after an exception. -/
def attempt (p handler : Prog φ β α) : Prog φ β α := fun s =>
  match p s with
  | (some a, s) => (some a, s)
  | (none, s) => handler s

/-- One step: `good` when it does not fail, and what it leaves of the files when it does. -/
def step (good : (φ → Option β) → Option α × (φ → Option β))
    (left : Option β → (φ → Option β) → φ → Option β) : Prog φ β α := fun s =>
  match s.fault with
  | some (0, junk) => (none, ⟨left junk s.files, none⟩)
  | some (n + 1, junk) => ((good s.files).1, ⟨(good s.files).2, some (n, junk)⟩)
  | none => ((good s.files).1, ⟨(good s.files).2, none⟩)

section Files

variable [DecidableEq φ]

def read (f : φ) : Prog φ β β := step (fun files => (files f, files)) fun _ files => files

def write (f : φ) (b : β) : Prog φ β Unit :=
  step (fun files => (some (), Function.update files f (some b)))
    fun junk files => Function.update files f junk

def look : Prog φ β Unit := step (fun files => (some (), files)) fun _ files => files

def exist (f : φ) : Prog φ β Bool :=
  attempt (step (fun files => (some (files f).isSome, files)) fun _ files => files) (pure false)

def copy (source target : φ) : Prog φ β Unit :=
  step (fun files => match files source with
    | none => (none, files)
    | some b => (some (), Function.update files target (some b)))
    fun junk files => Function.update files target junk

def replace (source target : φ) : Prog φ β Unit :=
  step (fun files => match files source with
    | none => (none, files)
    | some b => (some (), Function.update (Function.update files target (some b)) source none))
    fun _ files => files

def remove (f : φ) : Prog φ β Unit :=
  step (fun files => match files f with
    | none => (none, files)
    | some _ => (some (), Function.update files f none))
    fun _ files => files

end Files

def After (post : α → World φ β → Prop) (raised : World φ β → Prop) : Option α × World φ β → Prop
  | (some a, s) => post a s
  | (none, s) => raised s

def Triple (pre : World φ β → Prop) (p : Prog φ β α) (post : α → World φ β → Prop)
    (raised : World φ β → Prop) : Prop := ∀ s, pre s → After post raised (p s)

section Rules

variable {pre mid : World φ β → Prop} {p handler : Prog φ β α} {f : α → Prog φ β γ}
  {post : α → World φ β → Prop} {next : γ → World φ β → Prop} {raised : World φ β → Prop}

theorem triple_pure {a : α} (h : ∀ s, pre s → post a s) :
    Triple pre (pure a : Prog φ β α) post raised := h

theorem Triple.bind (h : Triple pre p post raised) (k : ∀ a, Triple (post a) (f a) next raised) :
    Triple pre (p >>= f) next raised := by
  intro s start
  have first := h s start
  show After next raised (match p s with
    | (some a, s) => f a s
    | (none, s) => (none, s))
  cases result : p s with
  | mk value t =>
    rw [result] at first
    cases value with
    | none => exact first
    | some a => exact k a t first

/-- `caught` is what holds when the handler starts. -/
theorem Triple.attempt (caught : World φ β → Prop) (h : Triple pre p post caught)
    (k : Triple caught handler post raised) :
    Triple pre (attempt p handler) post raised := by
  intro s start
  have first := h s start
  unfold Faults.attempt
  cases result : p s with
  | mk value t =>
    rw [result] at first
    cases value with
    | none => exact k t first
    | some a => exact first

theorem Triple.weaken {pre' : World φ β → Prop} {post' : α → World φ β → Prop}
    {raised' : World φ β → Prop} (h : Triple pre p post raised) (before : ∀ s, pre' s → pre s)
    (after : ∀ a s, post a s → post' a s) (thrown : ∀ s, raised s → raised' s) :
    Triple pre' p post' raised' := by
  intro s start
  have result := h s (before s start)
  cases value : p s with
  | mk r t =>
    rw [value] at result
    cases r with
    | none => exact thrown t result
    | some a => exact after a t result

theorem Triple.before {pre' : World φ β → Prop} (h : Triple pre p post raised)
    (before : ∀ s, pre' s → pre s) : Triple pre' p post raised :=
  h.weaken before (fun _ _ h => h) fun _ h => h

theorem Triple.returns {post' : α → World φ β → Prop} (h : Triple pre p post raised)
    (after : ∀ a s, post a s → post' a s) : Triple pre p post' raised :=
  h.weaken (fun _ h => h) after fun _ h => h

theorem Triple.raises {raised' : World φ β → Prop} (h : Triple pre p post raised)
    (thrown : ∀ s, raised s → raised' s) : Triple pre p post raised' :=
  h.weaken (fun _ h => h) (fun _ _ h => h) thrown

theorem Triple.quiet (h : Triple pre p post fun _ => False) : Triple pre p post raised :=
  h.raises fun _ impossible => False.elim impossible

theorem triple_or {other : World φ β → Prop} (h : Triple pre p post raised)
    (k : Triple other p post raised) : Triple (fun s => pre s ∨ other s) p post raised :=
  fun s start => start.elim (h s) (k s)

theorem triple_given {fact : Prop} (h : fact → Triple pre p post raised) :
    Triple (fun s => fact ∧ pre s) p post raised := fun s start => h start.1 s start.2

theorem triple_some {ι : Sort x} {each : ι → World φ β → Prop}
    (h : ∀ i, Triple (each i) p post raised) : Triple (fun s => ∃ i, each i s) p post raised :=
  fun s start => start.elim fun i here => h i s here

def At (files : φ → Option β) (may : Prop) (s : World φ β) : Prop :=
  s.files = files ∧ (¬ may → s.fault = none)

variable {files : φ → Option β} {may : Prop}

theorem At.calm {s : World φ β} (h : At files False s) (may : Prop) : At files may s :=
  ⟨h.1, fun _ => h.2 id⟩

theorem triple_step {good : (φ → Option β) → Option α × (φ → Option β)}
    {left : Option β → (φ → Option β) → φ → Option β} {a : α} {after : φ → Option β}
    (h : good files = (some a, after)) :
    Triple (At files may) (step good left) (fun r s => r = a ∧ At after may s)
      fun s => may ∧ ∃ junk, At (left junk files) False s := by
  rintro ⟨now, fault⟩ ⟨rfl, calm⟩
  unfold step
  rcases fault with - | ⟨n, junk⟩
  · rw [h]
    exact ⟨rfl, rfl, fun _ => rfl⟩
  · have doubt : may := by
      by_contra sure
      cases calm sure
    cases n with
    | zero => exact ⟨doubt, junk, rfl, fun _ => rfl⟩
    | succ n =>
      rw [h]
      exact ⟨rfl, rfl, fun sure => absurd doubt sure⟩

theorem triple_step_raises {good : (φ → Option β) → Option α × (φ → Option β)}
    {left : Option β → (φ → Option β) → φ → Option β} (h : good files = (none, files))
    (same : ∀ junk, left junk files = files) :
    Triple (At files may) (step good left) (fun _ _ => False) (At files may) := by
  rintro ⟨now, fault⟩ ⟨rfl, calm⟩
  unfold step
  rcases fault with - | ⟨n, junk⟩
  · rw [h]
    exact ⟨rfl, fun _ => rfl⟩
  · cases n with
    | zero => exact ⟨same junk, fun _ => rfl⟩
    | succ n =>
      rw [h]
      exact ⟨rfl, fun sure => absurd (calm sure) (Option.some_ne_none _)⟩

section Steps

variable {g source target : φ} {b : β}

theorem triple_read (there : files g = some b) :
    Triple (At files may) (read g) (fun r s => r = b ∧ At files may s)
      fun s => may ∧ At files False s := by
  refine (triple_step ?_).raises fun _ ⟨doubt, _, same⟩ => ⟨doubt, same⟩
  rw [there]

theorem triple_look : Triple (At files may) look (fun _ s => At files may s)
    fun s => may ∧ At files False s := by
  refine Triple.weaken (triple_step (a := ()) ?_) (fun _ h => h) (fun _ _ h => h.2)
    fun _ ⟨doubt, _, same⟩ => ⟨doubt, same⟩
  rfl

theorem triple_exist (g : φ) :
    Triple (At files may) (exist g)
      (fun r s => r = (files g).isSome ∧ At files may s ∨ r = false ∧ may ∧ At files False s)
      fun _ => False := by
  refine Triple.attempt (fun s => may ∧ At files False s) ?_ ?_
  · refine Triple.weaken (triple_step ?_) (fun _ h => h) (fun _ _ h => Or.inl h)
      fun _ ⟨doubt, _, same⟩ => ⟨doubt, same⟩
    rfl
  · exact triple_pure fun _ h => Or.inr ⟨rfl, h⟩

variable [DecidableEq φ]

theorem triple_write (g : φ) (b : β) :
    Triple (At files may) (write g b) (fun _ s => At (Function.update files g (some b)) may s)
      fun s => may ∧ ∃ junk, At (Function.update files g junk) False s := by
  refine (triple_step (a := ()) ?_).returns fun _ _ h => h.2
  rfl

theorem triple_copy (there : files source = some b) (target : φ) :
    Triple (At files may) (copy source target)
      (fun _ s => At (Function.update files target (some b)) may s)
      fun s => may ∧ ∃ junk, At (Function.update files target junk) False s := by
  refine (triple_step (a := ()) ?_).returns fun _ _ h => h.2
  rw [there]

theorem triple_replace (there : files source = some b) (target : φ) :
    Triple (At files may) (replace source target)
      (fun _ s => At (Function.update (Function.update files target (some b)) source none) may s)
      fun s => may ∧ At files False s := by
  refine Triple.weaken (triple_step (a := ()) ?_) (fun _ h => h) (fun _ _ h => h.2)
    fun _ ⟨doubt, _, same⟩ => ⟨doubt, same⟩
  rw [there]

theorem triple_remove (g : φ) :
    Triple (At files may) (attempt (remove g) (pure ()))
      (fun _ s => At (Function.update files g none) may s ∨ At files may s) fun _ => False := by
  refine Triple.attempt (At files may) ?_ (triple_pure fun _ h => Or.inr h)
  cases there : files g with
  | some b =>
    refine Triple.weaken (triple_step (a := ()) ?_) (fun _ h => h) (fun _ _ h => Or.inl h.2)
      fun _ ⟨_, _, same⟩ => same.calm may
    rw [there]
  | none =>
    refine (triple_step_raises ?_ fun _ => rfl).returns fun _ _ h => h.elim
    rw [there]

end Steps

end Rules

end Faults
