import Plexichat.Sum.Formula

/-! The dependency budget of a root call: the run up to the first reading that the budget
refuses, and what then becomes of the formulas that wait for it. `evaluate_cell` catches a
_DependencyBudgetExceeded at each of them, not only at the root. -/
namespace Plexichat.Sum.Formula.Sheets

open Memo

variable {ν : Type}

structure Pending (ν : Type) where
  key : Key
  next : Answer ν → Query Request (Answer ν) (Answer ν)

/-- A reading that the budget refuses: what it comes to, none for a _DependencyBudgetExceeded,
and the formulas that wait for it, from the one that makes it to the root. -/
structure Exhaustion (ν : Type) where
  refusal : Option (Answer ν)
  pending : List (Pending ν)

abbrev Run (ν : Type) := Except (Exhaustion ν) (Answer ν) × Evaluator ν

section Until

variable (w : Sheets ν) (dependencies : Nat)

/-! ### The run up to the first refused reading -/

def resolveUntil (below : Key → Evaluator ν → Run ν) (cell : Address) (s : Evaluator ν) : Run ν :=
  match w.found cell with
  | none => (.ok (.ok .blank), s)
  | some content =>
    if dependencies < s.count.used then (.error ⟨none, []⟩, s.count)
    else match content with
      | .inl value => (.ok (.ok value), s.count)
      | .inr k => below k s.count

def answerUntil (next after : Key → Evaluator ν → Run ν) (q : Request) (s : Evaluator ν) : Run ν :=
  match q.through with
  | .reference => w.resolveUntil dependencies next q.cell s
  | .block => w.resolveUntil dependencies after q.cell s
  | .rangeValues =>
    if dependencies < s.count.used then (.error ⟨none, []⟩, s.count)
    else w.resolveUntil dependencies after q.cell s.count
  | .rangeMatrix =>
    if dependencies < s.count.used then (.error ⟨some (.error (.value NUM_ERROR)), []⟩, s.count)
    else w.resolveUntil dependencies after q.cell s.count

def settleUntil (k : Key) : Except (Exhaustion ν × (Answer ν → Query Request (Answer ν) (Answer ν)))
    (Answer ν) × Evaluator ν → Run ν
  | (.error (e, next), s) => (.error { e with pending := e.pending ++ [⟨k, next⟩] }, s)
  | (.ok (.ok value), s) => (.ok (.ok value), s.remember k value)
  | (.ok raised, s) => (.ok (caught raised), s)

def untilStep (next after : List Key → Key → Evaluator ν → Run ν) (seen : List Key) :
    Key → Evaluator ν → Run ν := fun k s =>
  if k ∈ seen then (.ok (.ok (.text CYCLE_ERROR)), s)
  else match s.computed k with
    | some value => (.ok (.ok value), s)
    | none =>
      if dependencies < s.count.used then (.error ⟨none, []⟩, s.count)
      else settleUntil k ((w.program k).suspend
        (w.answerUntil dependencies (next (k :: seen)) (after (k :: seen))) s.count)

def evaluateUntil (n : Nat) : List Key → Key → Evaluator ν → Run ν :=
  (descend (w.untilStep dependencies) (fun _ _ s => (.ok (.ok (.text CYCLE_ERROR)), s)) n).1

/-- The part of `evaluateRoot` that is within the budget. -/
def rootUntil (k : Key) (s : Evaluator ν) : Run ν :=
  w.evaluateUntil dependencies (MAX_CALL_DEPTH + 1) [] k { s with used := 0 }

theorem evaluateUntil_succ (n : Nat) (seen : List Key) (k : Key) (s : Evaluator ν) :
    w.evaluateUntil dependencies (n + 1) seen k s =
      if k ∈ seen then (.ok (.ok (.text CYCLE_ERROR)), s)
      else match s.computed k with
        | some value => (.ok (.ok value), s)
        | none =>
          if dependencies < s.count.used then (.error ⟨none, []⟩, s.count)
          else settleUntil k ((w.program k).suspend
            (w.answerUntil dependencies (w.evaluateUntil dependencies n (k :: seen))
              (w.evaluateUntil dependencies (n - 1) (k :: seen))) s.count) := by
  unfold evaluateUntil
  rw [← descend_before]
  rfl

/-! ### Without budget -/

def spent (q : Request) : Option (Answer ν) :=
  match q.through with
  | .reference | .block =>
    match w.found q.cell with
    | none => some (.ok .blank)
    | some _ => none
  | .rangeValues => none
  | .rangeMatrix => some (.error (.value NUM_ERROR))

def comesTo (answer : Option (Answer ν)) (p : Pending ν) : Option (Answer ν) :=
  answer.bind fun a => (p.next a).run w.spent

/-- The end of `evaluate_cell` for a waiting formula, with the memo. -/
def unwindStep (r : Option (Answer ν) × (Key → Option (Value ν))) (p : Pending ν) :
    Option (Answer ν) × (Key → Option (Value ν)) :=
  match w.comesTo r.1 p with
  | none => (some (.ok (.text NUM_ERROR)), r.2)
  | some (.ok value) => (some (.ok value), store r.2 p.key (some value))
  | some raised => (some (caught raised), r.2)

def unwind (r : Option (Answer ν) × (Key → Option (Value ν))) (pending : List (Pending ν)) :
    Option (Answer ν) × (Key → Option (Value ν)) := pending.foldl w.unwindStep r

/-- The code's result for a run: the same within the budget, and from the refused reading on
what the waiting formulas come to. -/
def Agrees (run : Run ν) (result : Option (Answer ν) × Evaluator ν) : Prop :=
  match run with
  | (.ok a, t) => result = (some a, t)
  | (.error e, t) => dependencies < result.2.used ∧
      (result.1, result.2.computed) = w.unwind (e.refusal, t.computed) e.pending

end Until

variable {w : Sheets ν} {dependencies : Nat}

theorem resolve_spent {below : Level ν} {cell : Address} {s : Evaluator ν}
    (used : dependencies < s.used) :
    (w.resolve dependencies below cell s).1 = w.spent ⟨cell, .reference⟩ ∧
      dependencies < (w.resolve dependencies below cell s).2.used ∧
      (w.resolve dependencies below cell s).2.computed = s.computed := by
  have more : dependencies < s.count.used := Nat.lt_succ_of_lt used
  unfold resolve spent
  cases w.found cell with
  | none => exact ⟨rfl, used, rfl⟩
  | some content =>
    dsimp only
    rw [if_pos more]
    exact ⟨rfl, more, rfl⟩

theorem answer_spent {next after : Level ν} (q : Request) {s : Evaluator ν}
    (used : dependencies < s.used) :
    (w.answer dependencies next after q s).1 = w.spent q ∧
      dependencies < (w.answer dependencies next after q s).2.used ∧
      (w.answer dependencies next after q s).2.computed = s.computed := by
  have more : dependencies < s.count.used := Nat.lt_succ_of_lt used
  obtain ⟨cell, through⟩ := q
  cases through with
  | reference => exact resolve_spent used
  | block => exact resolve_spent used
  | rangeValues =>
    simp only [answer, if_pos more]
    exact ⟨rfl, more, rfl⟩
  | rangeMatrix =>
    simp only [answer, if_pos more]
    exact ⟨rfl, more, rfl⟩

theorem serve_spent (next after : Level ν) (q : Query Request (Answer ν) (Answer ν))
    {s : Evaluator ν} (used : dependencies < s.used) :
    (q.serve (w.answer dependencies next after) s).1 = q.run w.spent ∧
      dependencies < (q.serve (w.answer dependencies next after) s).2.used ∧
      (q.serve (w.answer dependencies next after) s).2.computed = s.computed :=
  Query.serve_oracle (P := fun t => dependencies < t.used ∧ t.computed = s.computed)
    (fun q _ h =>
      have step := answer_spent q h.1
      ⟨step.1, step.2.1, step.2.2.trans h.2⟩) q ⟨used, rfl⟩

theorem resolve_agrees {untilBelow : Key → Evaluator ν → Run ν} {below : Level ν}
    (agrees : ∀ k s, w.Agrees dependencies (untilBelow k s) (below k s)) (cell : Address)
    (s : Evaluator ν) :
    w.Agrees dependencies (w.resolveUntil dependencies untilBelow cell s)
      (w.resolve dependencies below cell s) := by
  unfold resolveUntil resolve
  cases w.found cell with
  | none => exact rfl
  | some content =>
    dsimp only
    split
    · exact ⟨‹_›, rfl⟩
    · cases content with
      | inl value => exact rfl
      | inr k => exact agrees k s.count

theorem answer_agrees {untilNext untilAfter : Key → Evaluator ν → Run ν} {next after : Level ν}
    (agreesNext : ∀ k s, w.Agrees dependencies (untilNext k s) (next k s))
    (agreesAfter : ∀ k s, w.Agrees dependencies (untilAfter k s) (after k s)) (q : Request)
    (s : Evaluator ν) :
    w.Agrees dependencies (w.answerUntil dependencies untilNext untilAfter q s)
      (w.answer dependencies next after q s) := by
  obtain ⟨cell, through⟩ := q
  cases through with
  | reference => exact resolve_agrees agreesNext cell s
  | block => exact resolve_agrees agreesAfter cell s
  | rangeValues =>
    simp only [answerUntil, answer]
    split
    · exact ⟨‹_›, rfl⟩
    · exact resolve_agrees agreesAfter cell s.count
  | rangeMatrix =>
    simp only [answerUntil, answer]
    split
    · exact ⟨‹_›, rfl⟩
    · exact resolve_agrees agreesAfter cell s.count

theorem unwind_append (r : Option (Answer ν) × (Key → Option (Value ν)))
    (pending : List (Pending ν)) (p : Pending ν) :
    w.unwind r (pending ++ [p]) = w.unwindStep (w.unwind r pending) p := by
  rw [unwind, List.foldl_append]
  rfl

/-- A formula, when its readings are answered so that runs and results agree. -/
theorem settle_agrees {untilNext untilAfter : Key → Evaluator ν → Run ν} {next after : Level ν}
    (agreesNext : ∀ k s, w.Agrees dependencies (untilNext k s) (next k s))
    (agreesAfter : ∀ k s, w.Agrees dependencies (untilAfter k s) (after k s)) (k : Key)
    (q : Query Request (Answer ν) (Answer ν)) (s : Evaluator ν) :
    w.Agrees dependencies
      (settleUntil k (q.suspend (w.answerUntil dependencies untilNext untilAfter) s))
      (settle k (q.serve (w.answer dependencies next after) s)) := by
  have agrees (q : Request) (s : Evaluator ν) (run : Run ν)
      (outcome : w.answerUntil dependencies untilNext untilAfter q s = run) :
      w.Agrees dependencies run (w.answer dependencies next after q s) :=
    outcome ▸ answer_agrees agreesNext agreesAfter q s
  have served := Query.serve_suspend (R := fun e t => w.Agrees dependencies (.error e, t))
    (fun q s a t => agrees q s (.ok a, t)) (fun q s e t => agrees q s (.error e, t)) q s
  rcases outcome : q.suspend (w.answerUntil dependencies untilNext untilAfter) s with
    ⟨⟨e, waiting⟩ | ⟨raised | value⟩, t⟩
  · rw [outcome] at served
    obtain ⟨answer, u, ⟨used, unwound⟩, served⟩ := served
    rw [served]
    show _ ∧ _ = w.unwind _ (e.pending ++ [⟨k, waiting⟩])
    rw [unwind_append, ← unwound]
    cases answer with
    | none => exact ⟨used, rfl⟩
    | some a =>
      obtain ⟨same, later, computed⟩ := serve_spent next after (waiting a) used
      have comes : w.comesTo (some a) ⟨k, waiting⟩ = (waiting a).run w.spent := rfl
      dsimp only
      rcases end_ : (waiting a).serve (w.answer dependencies next after) u with ⟨result, t'⟩
      rw [end_] at same later computed
      dsimp only at same later computed
      unfold unwindStep
      rw [comes, ← same]
      cases result with
      | none => exact ⟨later, by rw [← computed]; rfl⟩
      | some result =>
        cases result with
        | ok value => exact ⟨later, by rw [← computed]; rfl⟩
        | error raised => exact ⟨later, by rw [← computed]; rfl⟩
  · rw [outcome] at served
    rw [served]
    exact rfl
  · rw [outcome] at served
    rw [served]
    exact rfl

theorem evaluateCell_agrees (n : Nat) (seen : List Key) (k : Key) (s : Evaluator ν) :
    w.Agrees dependencies (w.evaluateUntil dependencies n seen k s)
      (w.evaluateCell dependencies n seen k s) := by
  induction n using Nat.strongRecOn generalizing seen k s with
  | ind n ih =>
    cases n with
    | zero => exact rfl
    | succ n =>
      rw [evaluateUntil_succ, evaluateCell_succ]
      split
      · exact rfl
      cases s.computed k with
      | some value => exact rfl
      | none =>
        dsimp only
        split
        · exact ⟨‹_›, rfl⟩
        · exact settle_agrees (ih n (Nat.lt_succ_self n) (k :: seen))
            (ih (n - 1) (Nat.lt_succ_of_le (Nat.sub_le n 1)) (k :: seen)) k _ _

/-! ### What the run within the budget keeps -/

def SameOn (seen : List Key) (s t : Evaluator ν) : Prop :=
  ∀ j ∈ seen, t.computed j = s.computed j

def Affords (dependencies : Nat) (seen : List Key) (s t : Evaluator ν) : Prop :=
  t.used ≤ dependencies ∧ SameOn seen s t

def Exhausts (dependencies : Nat) (seen : List Key) (s : Evaluator ν) (e : Exhaustion ν)
    (t : Evaluator ν) : Prop :=
  dependencies < t.used ∧ SameOn seen s t ∧ ∀ p ∈ e.pending, t.computed p.key = none

def Fits (dependencies : Nat) (seen : List Key) (s : Evaluator ν) (run : Run ν) : Prop :=
  Query.Outcome (Affords dependencies seen s) (Exhausts dependencies seen s) run

theorem Fits.from {seen : List Key} {s t : Evaluator ν} {run : Run ν} (same : SameOn seen s t)
    (fits : Fits dependencies seen t run) : Fits dependencies seen s run := by
  have trans {u : Evaluator ν} (later : SameOn seen t u) : SameOn seen s u :=
    fun j mem => (later j mem).trans (same j mem)
  match run, fits with
  | (.ok a, u), fits => exact ⟨fits.1, trans fits.2⟩
  | (.error e, u), fits => exact ⟨fits.1, trans fits.2.1, fits.2.2⟩

theorem fits_refused {seen : List Key} {s : Evaluator ν} (refusal : Option (Answer ν))
    (exceeded : dependencies < s.count.used) :
    Fits dependencies seen s (.error ⟨refusal, []⟩, s.count) :=
  ⟨exceeded, fun _ _ => rfl, fun _ none_ => absurd none_ List.not_mem_nil⟩

theorem resolve_fits {seen : List Key} {below : Key → Evaluator ν → Run ν}
    (each : ∀ k s, s.used ≤ dependencies → Fits dependencies seen s (below k s)) (cell : Address)
    {s : Evaluator ν} (within : s.used ≤ dependencies) :
    Fits dependencies seen s (w.resolveUntil dependencies below cell s) := by
  unfold resolveUntil
  cases w.found cell with
  | none => exact ⟨within, fun _ _ => rfl⟩
  | some content =>
    dsimp only
    split
    · exact fits_refused none ‹_›
    · rename_i more
      cases content with
      | inl value => exact ⟨Nat.not_lt.mp more, fun _ _ => rfl⟩
      | inr k => exact (each k s.count (Nat.not_lt.mp more)).from fun _ _ => rfl

theorem answer_fits {seen : List Key} {next after : Key → Evaluator ν → Run ν}
    (eachNext : ∀ k s, s.used ≤ dependencies → Fits dependencies seen s (next k s))
    (eachAfter : ∀ k s, s.used ≤ dependencies → Fits dependencies seen s (after k s)) (q : Request)
    {s : Evaluator ν} (within : s.used ≤ dependencies) :
    Fits dependencies seen s (w.answerUntil dependencies next after q s) := by
  obtain ⟨cell, through⟩ := q
  cases through with
  | reference => exact resolve_fits eachNext cell within
  | block => exact resolve_fits eachAfter cell within
  | rangeValues =>
    simp only [answerUntil]
    split
    · exact fits_refused none ‹_›
    · exact (resolve_fits eachAfter cell (Nat.not_lt.mp ‹_›)).from fun _ _ => rfl
  | rangeMatrix =>
    simp only [answerUntil]
    split
    · exact fits_refused _ ‹_›
    · exact (resolve_fits eachAfter cell (Nat.not_lt.mp ‹_›)).from fun _ _ => rfl

theorem settle_fits {seen : List Key} {k : Key} {s : Evaluator ν}
    {run : Except (Exhaustion ν × (Answer ν → Query Request (Answer ν) (Answer ν))) (Answer ν) ×
      Evaluator ν} (fresh : s.computed k = none) (other : k ∉ seen)
    (fits : Query.Outcome (Affords dependencies (k :: seen) s)
      (fun e t => Exhausts dependencies (k :: seen) s e.1 t) run) :
    Fits dependencies seen s (settleUntil k run) := by
  have tail {t : Evaluator ν} (same : SameOn (k :: seen) s t) : SameOn seen s t :=
    fun j mem => same j (List.mem_cons_of_mem k mem)
  match run, fits with
  | (.ok (.ok value), t), fits =>
    refine ⟨fits.1, fun j mem => ?_⟩
    have apart : j ≠ k := fun same => other (same ▸ mem)
    exact (Function.update_of_ne apart _ _).trans (tail fits.2 j mem)
  | (.ok (.error raised), t), fits => exact ⟨fits.1, tail fits.2⟩
  | (.error (e, waiting), t), fits =>
    refine ⟨fits.1, tail fits.2.1, fun p mem => ?_⟩
    obtain mem | mem := List.mem_append.mp mem
    · exact fits.2.2 p mem
    · obtain rfl := List.mem_singleton.mp mem
      exact (fits.2.1 k List.mem_cons_self).trans fresh

theorem evaluateUntil_fits (n : Nat) (seen : List Key) (k : Key) {s : Evaluator ν}
    (within : s.used ≤ dependencies) :
    Fits dependencies seen s (w.evaluateUntil dependencies n seen k s) := by
  induction n using Nat.strongRecOn generalizing seen k s with
  | ind n ih =>
    cases n with
    | zero => exact ⟨within, fun _ _ => rfl⟩
    | succ n =>
      rw [evaluateUntil_succ]
      split
      · exact ⟨within, fun _ _ => rfl⟩
      rename_i other
      cases kept : s.computed k with
      | some value => exact ⟨within, fun _ _ => rfl⟩
      | none =>
        dsimp only
        split
        · exact fits_refused none ‹_›
        rename_i more
        refine settle_fits kept other ?_
        refine Query.suspend_outcome (fun q t affords => ?_) (w.program k)
          (P := Affords dependencies (k :: seen) s) ⟨Nat.not_lt.mp more, fun _ _ => rfl⟩
        refine Fits.from affords.2 (answer_fits (fun j u => ?_) (fun j u => ?_) q affords.1)
        · exact ih n (Nat.lt_succ_self n) (k :: seen) j
        · exact ih (n - 1) (Nat.lt_succ_of_le (Nat.sub_le n 1)) (k :: seen) j

/-! ### The root call -/

/-- What `evaluate_cell` returns where it comes to `x`; none is a _DependencyBudgetExceeded. -/
def handled : Option (Answer ν) → Answer ν
  | none => .ok (.text NUM_ERROR)
  | some a => caught a

/-- No formula that waits for the refused reading comes to a value, and the root call ends with
#NUM!. -/
def Unwinds (w : Sheets ν) : Option (Answer ν) → List (Pending ν) → Prop
  | x, [] => x = some (.ok (.text NUM_ERROR))
  | x, p :: ps =>
    (∀ v, w.comesTo x p ≠ some (.ok v)) ∧ Unwinds w (some (handled (w.comesTo x p))) ps

theorem unwindStep_fst (r : Option (Answer ν) × (Key → Option (Value ν))) (p : Pending ν) :
    (w.unwindStep r p).1 = some (handled (w.comesTo r.1 p)) := by
  unfold unwindStep
  match w.comesTo r.1 p with
  | none => rfl
  | some (.ok value) => rfl
  | some (.error raised) => rfl

theorem unwindStep_snd {r : Option (Answer ν) × (Key → Option (Value ν))} {p : Pending ν}
    (cut : ∀ v, w.comesTo r.1 p ≠ some (.ok v)) : (w.unwindStep r p).2 = r.2 := by
  unfold unwindStep
  match comes : w.comesTo r.1 p with
  | none => rfl
  | some (.ok value) => exact absurd comes (cut value)
  | some (.error raised) => rfl

theorem unwindStep_keeps {r : Option (Answer ν) × (Key → Option (Value ν))} (p : Pending ν)
    {j : Key} (kept : r.2 j ≠ none) : (w.unwindStep r p).2 j ≠ none := by
  unfold unwindStep
  split
  · exact kept
  · rename_i value _
    by_cases same : j = p.key
    · subst same
      simp [store]
    · simpa [store, Function.update_of_ne same] using kept
  · exact kept

theorem unwind_keeps {r : Option (Answer ν) × (Key → Option (Value ν))} (pending : List (Pending ν))
    {j : Key} (kept : r.2 j ≠ none) : (w.unwind r pending).2 j ≠ none := by
  induction pending generalizing r with
  | nil => exact kept
  | cons p ps ih => exact ih (unwindStep_keeps p kept)

theorem unwind_eq_iff {pending : List (Pending ν)} {x : Option (Answer ν)}
    {memo : Key → Option (Value ν)} (fresh : ∀ p ∈ pending, memo p.key = none) :
    w.unwind (x, memo) pending = (some (.ok (.text NUM_ERROR)), memo) ↔ w.Unwinds x pending := by
  induction pending generalizing x with
  | nil => simp [unwind, Unwinds]
  | cons p ps ih =>
    have step : w.unwind (x, memo) (p :: ps) = w.unwind (w.unwindStep (x, memo) p) ps := rfl
    by_cases cut : ∀ v, w.comesTo x p ≠ some (.ok v)
    · have next : w.unwindStep (x, memo) p = (some (handled (w.comesTo x p)), memo) :=
        Prod.ext (unwindStep_fst _ p) (unwindStep_snd cut)
      rw [step, next, ih fun p mem => fresh p (List.mem_cons_of_mem _ mem)]
      exact ⟨fun unwinds => ⟨cut, unwinds⟩, fun unwinds => unwinds.2⟩
    · refine iff_of_false (fun same => ?_) fun unwinds => cut unwinds.1
      simp only [ne_eq, not_forall, not_not] at cut
      obtain ⟨value, comes⟩ := cut
      have kept : (w.unwindStep (x, memo) p).2 p.key ≠ none := by
        unfold unwindStep
        rw [comes]
        simp [store]
      have last : (w.unwind (w.unwindStep (x, memo) p) ps).2 p.key = none := by
        rw [← step, same]
        exact fresh p List.mem_cons_self
      exact unwind_keeps ps kept last

section Root

variable (w : Sheets ν) (dependencies : Nat)

def AbortsWhole (k : Key) (s : Evaluator ν) : Prop :=
  dependencies < (w.evaluateRoot dependencies k s).2.used →
    (w.evaluateRoot dependencies k s).1 = some (.ok (.text NUM_ERROR)) ∧
      (w.evaluateRoot dependencies k s).2.computed = (w.rootUntil dependencies k s).2.computed

def CutOff (k : Key) (s : Evaluator ν) : Prop :=
  ∀ e t, w.rootUntil dependencies k s = (.error e, t) → w.Unwinds e.refusal e.pending

theorem rootUntil_fits (k : Key) (s : Evaluator ν) :
    Fits dependencies [] { s with used := 0 } (w.rootUntil dependencies k s) :=
  evaluateUntil_fits _ [] k (Nat.zero_le _)

theorem rootUntil_agrees (k : Key) (s : Evaluator ν) :
    w.Agrees dependencies (w.rootUntil dependencies k s) (w.evaluateRoot dependencies k s) :=
  evaluateCell_agrees _ [] k _

theorem abortsWhole_error {k : Key} {s t : Evaluator ν} {e : Exhaustion ν}
    (run : w.rootUntil dependencies k s = (.error e, t)) :
    w.AbortsWhole dependencies k s ↔ w.Unwinds e.refusal e.pending := by
  have fits := w.rootUntil_fits dependencies k s
  have agrees := w.rootUntil_agrees dependencies k s
  unfold AbortsWhole
  rw [run] at fits agrees ⊢
  obtain ⟨exceeded, unwound⟩ := agrees
  obtain ⟨_, _, fresh⟩ := fits
  rw [forall_prop_of_true exceeded, ← Prod.mk.injEq, unwound, unwind_eq_iff fresh]

end Root

/-! ### A budget that runs out in another cell -/

theorem serve_range (w : Sheets ν) (next after : Level ν) {cells : List Address}
    (empty : ∀ cell ∈ cells, w.found cell = none) (values : List (Value ν)) {s : Evaluator ν}
    (within : s.used ≤ dependencies) (long : dependencies < s.used + cells.length) :
    ∃ t, (List.mapM.loop (read .rangeValues) cells values).run.serve
        (w.answer dependencies next after) s = (none, t) ∧ dependencies < t.used := by
  induction cells generalizing values s with
  | nil => exact absurd long (Nat.not_lt.mpr within)
  | cons cell cells ih =>
    rw [List.forall_mem_cons] at empty
    by_cases exceeded : dependencies < s.count.used
    · refine ⟨s.count, ?_, exceeded⟩
      show Query.serve _ (.ask (⟨cell, .rangeValues⟩ : Request) _) s = _
      rw [Query.serve]
      simp only [answer, if_pos exceeded]
    · have blank : w.answer dependencies next after ⟨cell, .rangeValues⟩ s =
          (some (.ok .blank), s.count) := by
        simp only [answer, if_neg exceeded, resolve, empty.1]
      have longer : dependencies < s.count.used + cells.length := by
        simp only [Evaluator.count_used, List.length_cons] at long ⊢
        omega
      obtain ⟨t, served, used⟩ := ih empty.2 (.blank :: values) (Nat.not_lt.mp exceeded) longer
      refine ⟨t, ?_, used⟩
      rw [← served]
      show Query.serve _ (.ask (⟨cell, .rangeValues⟩ : Request) _) s = _
      rw [Query.serve, blank]
      rfl

theorem program_neg (e : Engine ν) (sheet : Option Text) {formula text : Text}
    (parsed : e.parseFormula formula = .ok (.neg (.ref text))) :
    ∃ f, (e.program sheet formula).run = (e.evalRef sheet text).run.bind f := by
  unfold Engine.program
  rw [parsed]
  exact ⟨_, rfl⟩

theorem evalRef_range (e : Engine ν) (sheet : Option Text) {s1 s2 : Option Text}
    {text first second : Text} {r1 c1 r2 c2 : Int} (range : splitRange text = some (first, second))
    (one : e.parseCellRef first = .ok (s1, r1, c1))
    (two : e.parseCellRef second = .ok (s2, r2, c2)) :
    ∃ f, (e.evalRef sheet text).run =
      (Engine.rangeValues (orSheet s1 sheet) r1 c1 r2 c2 : Program ν _).run.bind f := by
  unfold Engine.evalRef
  rw [range]
  dsimp only
  rw [one, two]
  exact ⟨_, rfl⟩

def outer : Text := ['I', 'F', 'E', 'R', 'R', 'O', 'R', '(', 'B', '1', ',', '7', ')']
def inner : Text := ['-', 'C', '1', ':', 'C', '2', '0', '0', '0', '0', '1']

def catchingEngine : Engine Int where
  parseFormula text :=
    if text = outer then .ok (.call Engine.IFERROR [.ref ['B', '1'], .num 7])
    else .ok (.neg (.ref (inner.drop 1)))
  parseCellRef text :=
    if text = ['B', '1'] then .ok (none, 0, 1)
    else if text = ['C', '1'] then .ok (none, 0, 2)
    else .ok (none, 200000, 2)
  apply _ left _ := .ok left
  negate value := .ok value
  percent value := .ok value
  truthy _ := true
  functions _ _ _ := pure (.text NAME_ERROR)

/-- A1 is `=IFERROR(B1,7)` and B1 is `=-C1:C200001`, a range of empty cells. -/
def catching : Sheets Int where
  engine := catchingEngine
  resolver cell :=
    if cell = ⟨none, 0, 0⟩ then some ⟨outer, .blank⟩
    else if cell = ⟨none, 0, 1⟩ then some ⟨inner, .blank⟩
    else none

def outerKey : Key := ⟨⟨none, 0, 0⟩, outer⟩
def innerKey : Key := ⟨⟨none, 0, 1⟩, inner⟩

def rangeCells : List Address :=
  (span 0 200000).flatMap fun r => (span 2 2).map fun c => ⟨none, r, c⟩

theorem rangeCells_eq : rangeCells = (span 0 200000).map fun r => ⟨none, r, 2⟩ := by
  have column : span 2 2 = [2] := rfl
  rw [rangeCells, column, List.map_eq_flatMap]
  rfl

theorem length_rangeCells : rangeCells.length = 200001 := by
  rw [rangeCells_eq, List.length_map, span, List.length_map, List.length_range]
  decide

theorem rangeCells_empty {cell : Address} (mem : cell ∈ rangeCells) :
    catching.found cell = none := by
  rw [rangeCells_eq] at mem
  obtain ⟨row, _, rfl⟩ := List.mem_map.mp mem
  simp [found, catching]

theorem inner_parts : splitRange (inner.drop 1) = some (['C', '1'], inner.drop 4) := rfl

theorem inner_stops (next after : Level Int) {s : Evaluator Int}
    (within : s.used ≤ MAX_DEPENDENCIES) :
    ∃ t, (catching.program innerKey).serve (catching.answer MAX_DEPENDENCIES next after) s =
      (none, t) ∧ MAX_DEPENDENCIES < t.used := by
  have long : MAX_DEPENDENCIES < s.used + rangeCells.length := by
    rw [length_rangeCells]
    exact Nat.lt_of_lt_of_le (by decide) (Nat.le_add_left _ _)
  obtain ⟨t, served, used⟩ :=
    serve_range catching next after (fun _ => rangeCells_empty) [] within long
  have parsed : catching.engine.parseFormula inner = .ok (.neg (.ref (inner.drop 1))) := rfl
  obtain ⟨f, program⟩ := program_neg catching.engine none parsed
  obtain ⟨g, range⟩ := evalRef_range catching.engine none inner_parts rfl rfl
  refine ⟨t, ?_, used⟩
  show Query.serve _ (catching.engine.program none inner).run s = _
  rw [program, range]
  exact Query.serve_bind_stopped (Query.serve_bind_stopped served g) f

theorem outer_program : ∃ next,
    catching.program outerKey = .ask ⟨⟨none, 0, 1⟩, .reference⟩ next ∧
      next (.ok (.text NUM_ERROR)) = .done (.ok (.number 7)) := ⟨_, rfl, rfl⟩

theorem inner_error (n : Nat) {s : Evaluator Int} (fresh : s.computed innerKey = none)
    (within : s.count.used ≤ MAX_DEPENDENCIES) :
    ∃ t, catching.evaluateCell MAX_DEPENDENCIES (n + 1) [outerKey] innerKey s =
      (some (.ok (.text NUM_ERROR)), t) ∧ MAX_DEPENDENCIES < t.used := by
  obtain ⟨t, served, used⟩ := inner_stops
    (catching.evaluateCell MAX_DEPENDENCIES n [innerKey, outerKey])
    (catching.evaluateCell MAX_DEPENDENCIES (n - 1) [innerKey, outerKey]) within
  refine ⟨t, ?_, used⟩
  rw [evaluateCell_succ, if_neg (by decide), fresh]
  dsimp only
  rw [if_neg (Nat.not_lt.mpr within), answerAt, served]
  rfl

theorem outer_seven : ∃ t, catching.evaluateRoot MAX_DEPENDENCIES outerKey .fresh =
    (some (.ok (.number 7)), t) ∧ MAX_DEPENDENCIES < t.used := by
  obtain ⟨next, program, last⟩ := outer_program
  obtain ⟨t, error, used⟩ : ∃ t, catching.evaluateCell MAX_DEPENDENCIES 100 [outerKey] innerKey
      (Evaluator.count ⟨1, Memo.empty⟩) = (some (.ok (.text NUM_ERROR)), t) ∧
        MAX_DEPENDENCIES < t.used := inner_error 99 rfl (by decide)
  have found_ : catching.found ⟨none, 0, 1⟩ = some (.inr innerKey) := rfl
  have answered : catching.answerAt MAX_DEPENDENCIES 100 [outerKey] ⟨⟨none, 0, 1⟩, .reference⟩
      ⟨1, Memo.empty⟩ = (some (.ok (.text NUM_ERROR)), t) := by
    show catching.resolve MAX_DEPENDENCIES (catching.evaluateCell MAX_DEPENDENCIES 100 [outerKey])
      ⟨none, 0, 1⟩ ⟨1, Memo.empty⟩ = _
    rw [resolve, found_]
    dsimp only
    rw [if_neg (by decide)]
    exact error
  refine ⟨t.remember outerKey (.number 7), ?_, used⟩
  rw [evaluateRoot, MAX_CALL_DEPTH, evaluateCell_succ, if_neg List.not_mem_nil]
  show (if MAX_DEPENDENCIES < 1 then _ else settle outerKey (Query.serve _ _ ⟨1, Memo.empty⟩)) = _
  rw [if_neg (by decide), program, Query.serve, answered]
  dsimp only
  rw [last]
  rfl

end Plexichat.Sum.Formula.Sheets
