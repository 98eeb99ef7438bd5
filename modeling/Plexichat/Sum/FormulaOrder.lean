import Mathlib.Data.List.TakeDrop
import Mathlib.Data.List.TakeWhile
import Mathlib.Logic.Relation
import Mathlib.Tactic.Choose
import Plexichat.Library.Text
import Plexichat.Sum.Formula

/-! The value of a formula by itself, with no memo and no limit, and what a memo that is
filled in any order has to do with it. -/
namespace Plexichat.Sum.Formula
namespace Sheets
open Memo Relation

variable {ν : Type} (w : Sheets ν)

def look (below : Key → Option (Answer ν)) (cell : Address) : Option (Answer ν) :=
  match w.found cell with
  | none => some (.ok .blank)
  | some (.inl value) => some (.ok value)
  | some (.inr k) => below k

def oracle (next after : Key → Option (Answer ν)) (q : Request) : Option (Answer ν) :=
  match q.through with
  | .reference => w.look next q.cell
  | _ => w.look after q.cell

def valueStep (next after : Key → Option (Answer ν)) (k : Key) : Option (Answer ν) :=
  ((w.program k).run (w.oracle next after)).map caught

/-- The value of a formula whose references go at most `n` levels down, a reference through
a range counting for two. There is no memo, and no cell is ever refused. -/
def valueWithin (n : Nat) : Key → Option (Answer ν) :=
  (descend w.valueStep (fun _ => none) n).1

def oracleAt (n : Nat) : Request → Option (Answer ν) :=
  w.oracle (w.valueWithin n) (w.valueWithin (n - 1))

def Evaluates (k : Key) (a : Answer ν) : Prop := ∃ n, w.valueWithin n k = some a

/-- The formula of `k` reads a cell that holds the formula `j`. -/
def Refers (k j : Key) : Prop :=
  ∃ n, ∃ q ∈ (w.program k).asked (w.oracleAt n), w.found q.cell = some (.inr j)

def Acyclic : Prop := WellFounded fun j k => w.Refers k j

theorem valueWithin_succ (n : Nat) (k : Key) :
    w.valueWithin (n + 1) k = ((w.program k).run (w.oracleAt n)).map caught := by
  unfold oracleAt valueWithin
  rw [← descend_before]
  rfl

variable {w}

theorem look_mono {below below' : Key → Option (Answer ν)} (h : Coherent below below') :
    Coherent (w.look below) (w.look below') := by
  intro cell a value
  unfold look at value ⊢
  cases content : w.found cell with
  | none => simpa [content] using value
  | some c =>
    cases c with
    | inl v => simpa [content] using value
    | inr k => exact h k a (by simpa [content] using value)

theorem oracle_mono {next after next' after' : Key → Option (Answer ν)}
    (hn : Coherent next next') (ha : Coherent after after') :
    Coherent (w.oracle next after) (w.oracle next' after') := by
  intro q a answer
  unfold oracle at answer ⊢
  cases through : q.through with
  | reference => exact look_mono hn q.cell a (by simpa [through] using answer)
  | rangeValues => exact look_mono ha q.cell a (by simpa [through] using answer)
  | rangeMatrix => exact look_mono ha q.cell a (by simpa [through] using answer)
  | block => exact look_mono ha q.cell a (by simpa [through] using answer)

theorem valueWithin_mono {m n : Nat} (le : m ≤ n) :
    Coherent (w.valueWithin m) (w.valueWithin n) := by
  induction m using Nat.strongRecOn generalizing n with
  | ind m ih =>
    intro k a h
    cases m with
    | zero => cases h
    | succ m =>
      obtain ⟨n, rfl⟩ : ∃ l, n = l + 1 := ⟨n - 1, by omega⟩
      rw [valueWithin_succ] at h ⊢
      obtain ⟨r, ran, rfl⟩ := Option.map_eq_some_iff.mp h
      have wiser : Coherent (w.oracleAt m) (w.oracleAt n) :=
        oracle_mono (ih m (by omega) (by omega)) (ih (m - 1) (by omega) (by omega))
      rw [Query.run_mono wiser ran]
      rfl

theorem unknown_mono {m n : Nat} (le : m ≤ n) {k : Key} (unknown : w.valueWithin n k = none) :
    w.valueWithin m k = none := by
  cases known : w.valueWithin m k with
  | none => rfl
  | some a =>
    have later := valueWithin_mono le k a known
    rw [unknown] at later
    cases later

theorem oracleAt_mono {m n : Nat} (le : m ≤ n) : Coherent (w.oracleAt m) (w.oracleAt n) :=
  oracle_mono (valueWithin_mono le) (valueWithin_mono (by omega))

theorem Evaluates.unique {k : Key} {a b : Answer ν} (h : w.Evaluates k a)
    (h' : w.Evaluates k b) : a = b := by
  obtain ⟨m, hm⟩ := h
  obtain ⟨n, hn⟩ := h'
  have left := valueWithin_mono (Nat.le_max_left m n) k a hm
  have right := valueWithin_mono (Nat.le_max_right m n) k b hn
  exact Option.some.inj (left.symm.trans right)

theorem run_ends {q : Query Request (Answer ν) (Answer ν)}
    (known : ∀ n, ∀ r ∈ q.asked (w.oracleAt n), ∀ j, w.found r.cell = some (.inr j) →
      ∃ a, w.Evaluates j a) : ∃ n r, q.run (w.oracleAt n) = some r := by
  induction q with
  | done r => exact ⟨0, r, rfl⟩
  | ask r next ih =>
    obtain ⟨m, a, answer⟩ : ∃ m a, w.oracleAt m r = some a := by
      obtain ⟨m, a, value⟩ : ∃ m a, w.look (w.valueWithin m) r.cell = some a := by
        unfold look
        cases content : w.found r.cell with
        | none => exact ⟨0, .ok .blank, rfl⟩
        | some c =>
          cases c with
          | inl value => exact ⟨0, .ok value, rfl⟩
          | inr j =>
            obtain ⟨a, m, value⟩ := known 0 r (List.mem_cons_self ..) j content
            exact ⟨m, a, value⟩
      have later := look_mono (w := w) (valueWithin_mono (Nat.le_add_right m 1)) r.cell a value
      refine ⟨m + 1, a, ?_⟩
      cases through : r.through <;> simp [oracleAt, oracle, through, later, value]
    have onward : ∀ n, ∀ s ∈ (next a).asked (w.oracleAt n), ∀ j,
        w.found s.cell = some (.inr j) → ∃ b, w.Evaluates j b := by
      intro n s question
      refine known (max n m) s ?_
      have same := oracleAt_mono (w := w) (Nat.le_max_right n m) r a answer
      have asked := Query.asked_subset (oracleAt_mono (w := w) (Nat.le_max_left n m)) _ question
      simp [Query.asked, same, asked]
    obtain ⟨n, b, ran⟩ := ih a onward
    refine ⟨max n m, b, ?_⟩
    rw [Query.run, oracleAt_mono (Nat.le_max_right n m) r a answer]
    exact Query.run_mono (oracleAt_mono (Nat.le_max_left n m)) ran

/-- In a workbook without reference cycles every formula has a value. -/
theorem Acyclic.evaluates (acyclic : w.Acyclic) (k : Key) : ∃ a, w.Evaluates k a := by
  induction k using acyclic.induction with
  | _ k ih =>
    obtain ⟨n, r, ran⟩ := run_ends (q := w.program k) fun n q question j content =>
      ih j ⟨n, q, question, content⟩
    exact ⟨caught r, n + 1, by rw [valueWithin_succ, ran]; rfl⟩

section Growth

structure Before (s t : Evaluator ν) : Prop where
  used : s.used ≤ t.used
  kept : ∀ k, s.computed k ≠ none → t.computed k ≠ none

theorem Before.refl (s : Evaluator ν) : Before s s := ⟨Nat.le_refl _, fun _ h => h⟩

theorem Before.trans {s t u : Evaluator ν} (h : Before s t) (h' : Before t u) : Before s u :=
  ⟨Nat.le_trans h.used h'.used, fun k stored => h'.kept k (h.kept k stored)⟩

theorem before_count (s : Evaluator ν) : Before s s.count :=
  ⟨Nat.le_succ _, fun _ h => h⟩

theorem remember_ne_none {s : Evaluator ν} {k j : Key} {v : Value ν} :
    (s.remember k v).computed j ≠ none ↔ j = k ∨ s.computed j ≠ none := by
  unfold Evaluator.remember store
  by_cases same : j = k
  · simp [same]
  · simp [same]

theorem before_remember (s : Evaluator ν) (k : Key) (v : Value ν) : Before s (s.remember k v) :=
  ⟨Nat.le_refl _, fun _ stored => remember_ne_none.mpr (.inr stored)⟩

variable {dependencies : Nat}

theorem before_resolve {below : Level ν} (h : ∀ k s, Before s (below k s).2) (cell : Address)
    (s : Evaluator ν) : Before s (w.resolve dependencies below cell s).2 := by
  unfold resolve
  cases w.found cell with
  | none => exact .refl s
  | some content =>
    dsimp only
    split
    · exact before_count s
    · cases content with
      | inl value => exact before_count s
      | inr k => exact (before_count s).trans (h k s.count)

theorem before_answer {next after : Level ν} (hn : ∀ k s, Before s (next k s).2)
    (ha : ∀ k s, Before s (after k s).2) (q : Request) (s : Evaluator ν) :
    Before s (w.answer dependencies next after q s).2 := by
  unfold answer
  cases q.through with
  | reference => exact before_resolve hn q.cell s
  | block => exact before_resolve ha q.cell s
  | rangeValues =>
    dsimp only
    split
    · exact before_count s
    · exact (before_count s).trans (before_resolve ha q.cell s.count)
  | rangeMatrix =>
    dsimp only
    split
    · exact before_count s
    · exact (before_count s).trans (before_resolve ha q.cell s.count)

theorem before_settle (k : Key) (r : Option (Answer ν) × Evaluator ν) :
    Before r.2 (settle k r).2 := by
  rcases r with ⟨_ | _ | value, s⟩
  · exact .refl s
  · exact .refl s
  · exact before_remember s k value

theorem before_evaluateCell (n : Nat) (seen : List Key) (k : Key) (s : Evaluator ν) :
    Before s (w.evaluateCell dependencies n seen k s).2 := by
  induction n using Nat.strongRecOn generalizing seen k s with
  | ind n ih =>
    cases n with
    | zero => exact .refl s
    | succ n =>
      rw [evaluateCell_succ]
      split
      · exact .refl s
      · split
        · exact .refl s
        · split
          · exact before_count s
          · refine (before_count s).trans (.trans ?_ (before_settle k _))
            exact Query.serve_keeps (P := Before s.count)
              (fun q u h => h.trans (before_answer (fun j => ih n (by omega) (k :: seen) j)
                (fun j => ih (n - 1) (by omega) (k :: seen) j) q u)) (w.program k) (.refl _)

end Growth

section Following

variable {dependencies : Nat} {R : Evaluator ν → Evaluator ν → Prop}
  {Left : Key → Evaluator ν → Prop}

structure Steady (R : Evaluator ν → Evaluator ν → Prop) : Prop where
  count : ∀ s t, R s t → R s.count t.count
  used : ∀ s t, R s t → t.used ≤ s.used

def Follows (dependencies : Nat) (R : Evaluator ν → Evaluator ν → Prop) (a : Answer ν)
    (left : Evaluator ν → Prop) (f : Evaluator ν → Option (Answer ν) × Evaluator ν) : Prop :=
  ∀ s t, R s t → (f s).2.used ≤ dependencies →
    (f s).1 = some a ∧ (f t).1 = some a ∧ R (f s).2 (f t).2 ∧ left (f t).2

theorem resolve_follows (steady : Steady R) {below : Level ν} {values : Key → Option (Answer ν)}
    (grow : ∀ k s, Before s (below k s).2)
    {cell : Address} (h : ∀ k a, w.found cell = some (.inr k) → values k = some a →
      Follows dependencies R a (Left k) (below k))
    {a : Answer ν} (value : w.look values cell = some a) :
    Follows dependencies R a (fun t => ∀ k, w.found cell = some (.inr k) → Left k t)
      (w.resolve dependencies below cell) := by
  intro s t related fits
  unfold look at value
  unfold resolve at fits ⊢
  have less := steady.used s t related
  cases content : w.found cell with
  | none =>
    simp only [content] at value
    exact ⟨value, value, related, fun k never => nomatch never⟩
  | some c =>
    simp only [content] at value fits ⊢
    have counted : s.count.used ≤ dependencies := by
      split at fits
      · exact fits
      · cases c with
        | inl v => exact fits
        | inr k => exact Nat.le_trans (grow k s.count).used fits
    have counted' : t.count.used ≤ dependencies :=
      Nat.le_trans (Nat.succ_le_succ less) counted
    rw [if_neg (Nat.not_lt.mpr counted)] at fits ⊢
    rw [if_neg (Nat.not_lt.mpr counted')]
    have still := steady.count s t related
    cases c with
    | inl v => exact ⟨value, value, still, fun k never => nomatch never⟩
    | inr k =>
      obtain ⟨first, second, after, left⟩ := h k a content value s.count t.count still fits
      refine ⟨first, second, after, ?_⟩
      intro j same
      cases same
      exact left

theorem answer_follows (steady : Steady R) {next after : Level ν}
    {values earlier : Key → Option (Answer ν)} (hn : ∀ k s, Before s (next k s).2)
    (ha : ∀ k s, Before s (after k s).2)
    {q : Request} (follows : ∀ k a, w.found q.cell = some (.inr k) → values k = some a →
      Follows dependencies R a (Left k) (next k))
    (follows' : ∀ k a, w.found q.cell = some (.inr k) → earlier k = some a →
      Follows dependencies R a (Left k) (after k))
    {a : Answer ν} (value : w.oracle values earlier q = some a) :
    Follows dependencies R a (fun t => ∀ k, w.found q.cell = some (.inr k) → Left k t)
      (w.answer dependencies next after q) := by
  -- both loops over a range count before they resolve
  have counting : ∀ spent : Option (Answer ν), w.look earlier q.cell = some a →
      Follows dependencies R a (fun t => ∀ k, w.found q.cell = some (.inr k) → Left k t)
        fun s => if dependencies < s.count.used then (spent, s.count)
          else w.resolve dependencies after q.cell s.count := by
    intro spent value s t related fits
    have counted : s.count.used ≤ dependencies := by
      dsimp only at fits
      split at fits
      · exact fits
      · exact Nat.le_trans (before_resolve ha q.cell s.count).used fits
    have counted' : t.count.used ≤ dependencies :=
      Nat.le_trans (Nat.succ_le_succ (steady.used s t related)) counted
    simp only [if_neg (Nat.not_lt.mpr counted)] at fits ⊢
    simp only [if_neg (Nat.not_lt.mpr counted')]
    exact resolve_follows steady ha follows' value s.count t.count (steady.count s t related) fits
  unfold answer oracle at *
  cases through : q.through with
  | reference => exact resolve_follows steady hn follows (by simpa [through] using value)
  | block => exact resolve_follows steady ha follows' (by simpa [through] using value)
  | rangeValues => exact counting none (by simpa [through] using value)
  | rangeMatrix => exact counting (some (.error (.value NUM_ERROR))) (by simpa [through] using value)

theorem program_follows (steady : Steady R) {l p : Nat} {k : Key} (seen : List Key)
    {r : Answer ν} (ran : (w.program k).run (w.oracleAt p) = some r)
    (follows : ∀ j a, w.Refers k j → w.valueWithin p j = some a →
      Follows dependencies R a (Left j) (w.evaluateCell dependencies l seen j))
    (follows' : ∀ j a, w.Refers k j → w.valueWithin (p - 1) j = some a →
      Follows dependencies R a (Left j) (w.evaluateCell dependencies (l - 1) seen j))
    (stays : ∀ j s t, Before s t → Left j s → Left j t) :
    Follows dependencies R r (fun t => ∀ j, w.Refers k j → Left j t)
      ((w.program k).serve (w.answerAt dependencies l seen)) := by
  intro s t related fits
  have grow : ∀ q s, Before s (w.answerAt dependencies l seen q s).2 :=
    before_answer (before_evaluateCell l seen) (before_evaluateCell (l - 1) seen)
  let Reads (q : Request) (t : Evaluator ν) : Prop := ∀ j, w.found q.cell = some (.inr j) → Left j t
  have settled : ∀ q r t, Reads q t → Reads q (w.answerAt dependencies l seen r t).2 := by
    intro q r t all j content
    exact stays j t _ (grow r t) (all j content)
  obtain ⟨first, second, still, left⟩ := Query.serve_follows (F := fun s => s.used ≤ dependencies)
    (fun q s inside => Nat.le_trans (grow q s).used inside) settled ran
    (fun q asked a value => answer_follows steady (before_evaluateCell l seen)
      (before_evaluateCell (l - 1) seen) (fun j b content => follows j b ⟨p, q, asked, content⟩)
      (fun j b content => follows' j b ⟨p, q, asked, content⟩) value)
    related fits
  refine ⟨first, second, still, ?_⟩
  intro j ⟨n, q, question, content⟩
  refine left q ?_ j content
  rw [← Query.asked_eq (oracleAt_mono (Nat.le_max_right n p)) ran]
  exact Query.asked_subset (oracleAt_mono (Nat.le_max_left n p)) _ question

end Following

section Memo

/-- The formula of `k` ends with the value `v`, which `evaluate_cell` remembers. -/
def Lasts (w : Sheets ν) (k : Key) (v : Value ν) : Prop :=
  ∃ n, (w.program k).run (w.oracleAt n) = some (.ok v)

theorem Lasts.run {k : Key} {v : Value ν} (h : w.Lasts k v) {p : Nat} {r : Answer ν}
    (ran : (w.program k).run (w.oracleAt p) = some r) : r = .ok v := by
  obtain ⟨n, lasting⟩ := h
  have left := Query.run_mono (oracleAt_mono (Nat.le_max_left n p)) lasting
  have right := Query.run_mono (oracleAt_mono (Nat.le_max_right n p)) ran
  exact Option.some.inj (right.symm.trans left)

def Sound (w : Sheets ν) (s : Evaluator ν) : Prop := ∀ k v, s.computed k = some v → w.Lasts k v

/-- Every value that the evaluation of `k` remembers is remembered. -/
def Kept (w : Sheets ν) (k : Key) (s : Evaluator ν) : Prop :=
  ∀ j v, ReflTransGen w.Refers k j → w.Lasts j v → s.computed j ≠ none

def Closed (w : Sheets ν) (s : Evaluator ν) : Prop := ∀ k, s.computed k ≠ none → w.Kept k s

theorem Kept.mono {k : Key} {s t : Evaluator ν} (h : Before s t) (kept : w.Kept k s) :
    w.Kept k t := fun j v below lasts => h.kept j (kept j v below lasts)

theorem Sound.remember {s : Evaluator ν} (h : w.Sound s) {k : Key} {v : Value ν}
    (lasts : w.Lasts k v) : w.Sound (s.remember k v) := by
  intro j u stored
  by_cases same : j = k
  · subst same
    simp only [Evaluator.remember, store, Function.update_self, Option.some.injEq] at stored
    exact stored ▸ lasts
  · simp only [Evaluator.remember, store, Function.update_of_ne same] at stored
    exact h j u stored

theorem Kept.below {k j : Key} {s : Evaluator ν} (kept : w.Kept k s) (refers : w.Refers k j) :
    w.Kept j s := fun i v below lasts => kept i v (.head refers below) lasts

theorem kept_of_below {k : Key} {s : Evaluator ν} (below : ∀ j, w.Refers k j → w.Kept j s)
    (own : ∀ v, w.Lasts k v → s.computed k ≠ none) : w.Kept k s := by
  intro i v path lasts
  cases ReflTransGen.cases_head path with
  | inl same => exact same ▸ own v (same ▸ lasts)
  | inr onward =>
    obtain ⟨j, refers, rest⟩ := onward
    exact below j refers i v rest lasts

def Within (s t : Evaluator ν) : Prop := ∀ k, s.computed k ≠ none → t.computed k ≠ none

structure Ahead (w : Sheets ν) (s t : Evaluator ν) : Prop where
  sound : w.Sound s
  sound' : w.Sound t
  closed : w.Closed t
  within : Within s t
  used : t.used ≤ s.used

theorem steady_ahead : Steady w.Ahead :=
  ⟨fun _ _ h => ⟨h.sound, h.sound', h.closed, h.within, Nat.succ_le_succ h.used⟩,
    fun _ _ h => h.used⟩

/-- One evaluator by itself, which remembers nothing that `t` does not. -/
def Alone (w : Sheets ν) (t s u : Evaluator ν) : Prop := s = u ∧ w.Sound s ∧ Within s t

theorem steady_alone (t : Evaluator ν) : Steady (w.Alone t) :=
  ⟨fun _ _ h => ⟨congrArg Evaluator.count h.1, h.2⟩, fun _ _ h => h.1 ▸ Nat.le_refl _⟩

/-- A level above the values: what the formula reads lies one level down, and the formulas
on the path are not among the values of that level. -/
theorem below {m n : Nat} (le : m ≤ n) {k : Key} {a : Answer ν} {seen : List Key}
    (value : w.valueWithin m k = some a) (path : ∀ j ∈ seen, w.valueWithin m j = none) :
    ∃ l p r, n = l + 1 ∧ p ≤ l ∧ p < m ∧ (w.program k).run (w.oracleAt p) = some r ∧
      caught r = a ∧ k ∉ seen ∧ ∀ j ∈ k :: seen, w.valueWithin p j = none := by
  induction m with
  | zero => cases value
  | succ m ih =>
    have earlier : ∀ j ∈ seen, w.valueWithin m j = none :=
      fun j on => unknown_mono (Nat.le_add_right m 1) (path j on)
    cases known : w.valueWithin m k with
    | some b =>
      have same := valueWithin_mono (Nat.le_add_right m 1) k b known
      rw [value] at same
      cases same
      obtain ⟨l, p, r, above, under, less, rest⟩ := ih (by omega) known earlier
      exact ⟨l, p, r, above, under, by omega, rest⟩
    | none =>
      have ran := value
      rw [valueWithin_succ] at ran
      obtain ⟨r, ran, same⟩ := Option.map_eq_some_iff.mp ran
      refine ⟨n - 1, m, r, by omega, by omega, by omega, ran, same, ?_, ?_⟩
      · intro on
        rw [path k on] at value
        cases value
      · intro j on
        cases on with
        | head => exact known
        | tail _ on => exact earlier j on

variable {dependencies : Nat}

theorem counted_of_fits {k : Key} {s : Evaluator ν} {r : Option (Answer ν) × Evaluator ν}
    (fits : (if dependencies < s.count.used then (none, s.count) else settle k r).2.used ≤
      dependencies) : s.count.used ≤ dependencies := by
  by_contra spent
  rw [if_pos (Nat.lt_of_not_le spent)] at fits
  exact spent fits

theorem settle_used (k : Key) (r : Option (Answer ν) × Evaluator ν) :
    (settle k r).2.used = r.2.used := by
  rcases r with ⟨_ | _ | value, s⟩ <;> rfl

theorem evaluateCell_alone {t : Evaluator ν} {m n : Nat} (le : m ≤ n) {k : Key} {a : Answer ν}
    {seen : List Key} (value : w.valueWithin m k = some a)
    (path : ∀ j ∈ seen, w.valueWithin m j = none) (kept : w.Kept k t) :
    Follows dependencies (w.Alone t) a (fun _ => True) (w.evaluateCell dependencies n seen k) := by
  induction m using Nat.strongRecOn generalizing n k a seen with
  | ind m ih =>
    obtain ⟨l, p, r, rfl, under, less, ran, rfl, fresh, path'⟩ := below le value path
    intro s u ⟨same, sound, within⟩ fits
    subst same
    rw [evaluateCell_succ, if_neg fresh] at fits ⊢
    cases stored : s.computed k with
    | some v =>
      have known := Lasts.run (sound k v stored) ran
      subst known
      exact ⟨rfl, rfl, ⟨rfl, sound, within⟩, trivial⟩
    | none =>
      simp only [stored] at fits ⊢
      have counted := counted_of_fits fits
      rw [if_neg (Nat.not_lt.mpr counted)] at fits ⊢
      have follows := program_follows (steady_alone t) (k :: seen) ran
        (fun j b refers known => ih p less under known path' (kept.below refers))
        (fun j b refers known => ih (p - 1) (by omega) (by omega) known
          (fun i on => unknown_mono (Nat.sub_le p 1) (path' i on)) (kept.below refers))
        (fun _ _ _ _ _ => trivial)
      rw [settle_used] at fits
      obtain ⟨ended, _, ⟨_, sound', within'⟩, _⟩ :=
        follows s.count s.count ⟨rfl, sound, within⟩ fits
      generalize (w.program k).serve (w.answerAt dependencies l (k :: seen)) s.count = outcome at *
      obtain ⟨_, u⟩ := outcome
      cases ended
      cases r with
      | error f => exact ⟨rfl, rfl, ⟨rfl, sound', within'⟩, trivial⟩
      | ok v =>
        have lasts : w.Lasts k v := ⟨p, ran⟩
        refine ⟨rfl, rfl, ⟨rfl, sound'.remember lasts, ?_⟩, trivial⟩
        intro j now
        rcases remember_ne_none.mp now with rfl | old
        · exact kept j v .refl lasts
        · exact within' j old

theorem evaluateCell_ahead {m n : Nat} (le : m ≤ n) {k : Key} {a : Answer ν} {seen : List Key}
    (value : w.valueWithin m k = some a) (path : ∀ j ∈ seen, w.valueWithin m j = none) :
    Follows dependencies w.Ahead a (w.Kept k) (w.evaluateCell dependencies n seen k) := by
  induction m using Nat.strongRecOn generalizing n k a seen with
  | ind m ih =>
    intro s t ahead fits
    cases stored' : t.computed k with
    | some v =>
      -- the second evaluator has the value already, with all that the first may remember
      have kept := ahead.closed k (by simp [stored'])
      obtain ⟨first, _, ⟨_, sound, within⟩, _⟩ := evaluateCell_alone le value path kept s s
        ⟨rfl, ahead.sound, ahead.within⟩ fits
      obtain ⟨l, p, r, rfl, under, less, ran, rfl, fresh, path'⟩ := below le value path
      have second : w.evaluateCell dependencies (l + 1) seen k t = (some (.ok v), t) := by
        rw [evaluateCell_succ, if_neg fresh]
        simp only [stored']
      have known := Lasts.run (ahead.sound' k v stored') ran
      subst known
      rw [second]
      exact ⟨first, rfl, ⟨sound, ahead.sound', ahead.closed, within,
        Nat.le_trans ahead.used (before_evaluateCell _ seen k s).used⟩, kept⟩
    | none =>
      have stored : s.computed k = none := by
        by_contra some
        exact ahead.within k some stored'
      obtain ⟨l, p, r, rfl, under, less, ran, rfl, fresh, path'⟩ := below le value path
      have follows := program_follows steady_ahead (k :: seen) ran
        (fun j b _ known => ih p less under known path')
        (fun j b _ known => ih (p - 1) (by omega) (by omega) known
          (fun i on => unknown_mono (Nat.sub_le p 1) (path' i on)))
        (fun _ _ _ grow kept => kept.mono grow)
      rw [evaluateCell_succ, if_neg fresh] at fits ⊢
      rw [evaluateCell_succ, if_neg fresh]
      simp only [stored, stored'] at fits ⊢
      have counted := counted_of_fits fits
      have counted' : t.count.used ≤ dependencies :=
        Nat.le_trans (Nat.succ_le_succ ahead.used) counted
      rw [if_neg (Nat.not_lt.mpr counted)] at fits ⊢
      rw [if_neg (Nat.not_lt.mpr counted')]
      rw [settle_used] at fits
      obtain ⟨first, second, still, keeps⟩ :=
        follows s.count t.count (steady_ahead.count s t ahead) fits
      generalize (w.program k).serve (w.answerAt dependencies l (k :: seen)) s.count = u at *
      generalize (w.program k).serve (w.answerAt dependencies l (k :: seen)) t.count = u' at *
      obtain ⟨_, u⟩ := u
      obtain ⟨_, u'⟩ := u'
      cases first
      cases second
      cases r with
      | error f =>
        refine ⟨rfl, rfl, still, kept_of_below keeps ?_⟩
        intro v lasts
        cases lasts.run ran
      | ok v =>
        have lasts : w.Lasts k v := ⟨p, ran⟩
        have grow := before_remember u' k v
        have kept : w.Kept k (u'.remember k v) :=
          kept_of_below (fun j refers => (keeps j refers).mono grow)
            fun _ _ => remember_ne_none.mpr (.inl rfl)
        refine ⟨rfl, rfl, ⟨still.sound.remember lasts, still.sound'.remember lasts, ?_, ?_,
          still.used⟩, kept⟩
        · intro j now
          rcases remember_ne_none.mp now with rfl | old
          · exact kept
          · exact (still.closed j old).mono grow
        · intro j now
          rcases remember_ne_none.mp now with rfl | old
          · exact remember_ne_none.mpr (.inl rfl)
          · exact remember_ne_none.mpr (.inr (still.within j old))

end Memo

section Roots

def InBudget (w : Sheets ν) (dependencies : Nat) (k : Key) : Prop :=
  (w.evaluateRoot dependencies k .fresh).2.used ≤ dependencies

def InDepth (w : Sheets ν) (k : Key) : Prop :=
  ∃ a, w.valueWithin (MAX_CALL_DEPTH + 1) k = some a

variable {dependencies : Nat}

theorem ahead_fresh {t : Evaluator ν} (sound : w.Sound t) (closed : w.Closed t) :
    w.Ahead .fresh { t with used := 0 } where
  sound _ _ never := nomatch never
  sound' := sound
  closed := closed
  within _ never := (never rfl).elim
  used := Nat.le_refl 0

theorem evaluateRoot_eq {k : Key} {a : Answer ν} (deep : w.InDepth k)
    (cheap : w.InBudget dependencies k) (value : w.Evaluates k a) {t : Evaluator ν}
    (sound : w.Sound t) (closed : w.Closed t) :
    (w.evaluateRoot dependencies k t).1 = some a ∧ w.Sound (w.evaluateRoot dependencies k t).2 ∧
      w.Closed (w.evaluateRoot dependencies k t).2 := by
  obtain ⟨b, within⟩ := deep
  have same : b = a := Evaluates.unique ⟨_, within⟩ value
  subst same
  have path : ∀ j ∈ ([] : List Key), w.valueWithin (MAX_CALL_DEPTH + 1) j = none :=
    fun j never => nomatch never
  obtain ⟨_, second, ahead, _⟩ := evaluateCell_ahead (Nat.le_refl _) within path
    .fresh { t with used := 0 } (ahead_fresh sound closed) cheap
  exact ⟨second, ahead.sound', ahead.closed⟩

/-- The root calls of one evaluator, in any order: each returns the value of its formula. -/
theorem evaluateCells_eq (w : Sheets ν) (dependencies : Nat) (acyclic : w.Acyclic) :
    ∃ value : Key → Answer ν, (∀ k, w.Evaluates k (value k)) ∧
      ∀ roots : List Key, (∀ k ∈ roots, w.InDepth k ∧ w.InBudget dependencies k) →
        (w.evaluateCells dependencies roots .fresh).1 = roots.map fun k => some (value k) := by
  choose value evaluates using acyclic.evaluates
  refine ⟨value, evaluates, ?_⟩
  intro roots allowed
  have run : ∀ t : Evaluator ν, w.Sound t → w.Closed t →
      (w.evaluateCells dependencies roots t).1 = roots.map fun k => some (value k) := by
    induction roots with
    | nil => exact fun _ _ _ => rfl
    | cons k ks ih =>
      intro t sound closed
      obtain ⟨deep, cheap⟩ := allowed k (List.mem_cons_self ..)
      obtain ⟨result, sound', closed'⟩ := evaluateRoot_eq deep cheap (evaluates k) sound closed
      have rest := ih (fun j on => allowed j (List.mem_cons_of_mem k on)) _ sound' closed'
      simp [evaluateCells, result, rest]
  exact run .fresh (fun _ _ never => nomatch never) fun _ never => (never rfl).elim

end Roots

section Chain

def name (row : Nat) : Text := 'A' :: Text.decimal (row + 1)

def chainEngine : Engine Int where
  parseFormula text := .ok (.ref text)
  parseCellRef
    | 'A' :: digits =>
      match Text.natural digits with
      | some n => .ok (none, (n : Int) - 1, 0)
      | none => .error []
    | _ => .error []
  apply _ left _ := .ok left
  negate value := .ok value
  percent value := .ok value
  truthy _ := true
  functions _ _ _ := pure (.text NAME_ERROR)

def chainResolver : Address → Option (Stored Int)
  | ⟨none, .ofNat row, 0⟩ =>
    if row < 102 then some ⟨name (row + 1), .blank⟩
    else if row = 102 then some ⟨[], .number 7⟩
    else none
  | _ => none

def chain : Sheets Int := ⟨chainEngine, chainResolver⟩

def chainKey (row : Nat) : Key := ⟨⟨none, row, 0⟩, name (row + 1)⟩

theorem splitRange_name (row : Nat) : splitRange (name row) = none := by
  have plain : ':' ∉ name row := by
    intro letter
    cases letter with
    | tail _ digit => exact Text.not_mem_decimal (by decide) (row + 1) digit
  have whole : (name row).dropWhile (fun c => decide (c ≠ ':')) = [] := by
    refine List.dropWhile_eq_nil_iff.mpr ?_
    intro c letter
    simp only [decide_eq_true_eq]
    rintro rfl
    exact plain letter
  unfold splitRange
  rw [List.span_eq_takeWhile_dropWhile, whole]

theorem chain_program (row : Nat) :
    chain.program (chainKey row) = .ask ⟨⟨none, .ofNat (row + 1), 0⟩, .reference⟩ .done := by
  have digits : chainEngine.parseCellRef (name (row + 1)) = .ok (none, .ofNat (row + 1), 0) := by
    simp [chainEngine, name, Text.natural_decimal]
  have reading : chainEngine.evalRef none (name (row + 1)) =
      read .reference ⟨none, .ofNat (row + 1), 0⟩ := by
    simp [Engine.evalRef, splitRange_name, digits, orSheet]
  have parsed : chainEngine.program none (name (row + 1)) =
      chainEngine.evalRef none (name (row + 1)) := by
    simp [Engine.program, Engine.operand, Engine.isRange, splitRange_name, Engine.eval,
      show chainEngine.parseFormula (name (row + 1)) = .ok (.ref (name (row + 1))) from rfl]
  show (chainEngine.program none (name (row + 1))).run = _
  rw [parsed, reading]
  rfl

theorem chain_found {cell : Address} {k : Key} (content : chain.found cell = some (.inr k)) :
    ∃ row < 102, cell = ⟨none, .ofNat row, 0⟩ ∧ k = chainKey row := by
  obtain ⟨stored, lookup, kind⟩ := Option.map_eq_some_iff.mp content
  have value : chainResolver cell = some stored := lookup
  unfold chainResolver at value
  split at value
  · rename_i row
    split at value
    · rename_i less
      cases value
      have filled : name (row + 1) ≠ [] := List.cons_ne_nil _ _
      simp only [if_neg filled] at kind
      exact ⟨row, less, rfl, (Sum.inr.inj kind).symm⟩
    · split at value
      · cases value
        cases kind
      · cases value
  · cases value

theorem chain_refers {row : Nat} {j : Key} (refers : chain.Refers (chainKey row) j) :
    j = chainKey (row + 1) := by
  obtain ⟨n, q, question, content⟩ := refers
  rw [chain_program, Query.asked_single, List.mem_singleton] at question
  subst question
  obtain ⟨next, _, here, rfl⟩ := chain_found content
  cases here
  rfl

theorem chain_acyclic : chain.Acyclic := by
  let rank (k : Key) : Nat := if ∃ row < 102, k = chainKey row then 102 - k.cell.row.toNat else 103
  refine Subrelation.wf ?_ (measure rank).wf
  intro j k refers
  obtain ⟨_, _, _, content⟩ := id refers
  obtain ⟨next, less, _, rfl⟩ := chain_found content
  show rank (chainKey next) < rank k
  have after : rank (chainKey next) = 102 - next := if_pos ⟨next, less, rfl⟩
  by_cases inside : ∃ row < 102, k = chainKey row
  · obtain ⟨row, small, rfl⟩ := inside
    have before : rank (chainKey row) = 102 - row := if_pos ⟨row, small, rfl⟩
    have same : (next : Int) = row + 1 := by
      simpa [chainKey] using congrArg (·.cell.row) (chain_refers refers)
    omega
  · have before : rank k = 103 := if_neg inside
    omega

/-- Each formula of the chain takes two of the budget: one for the cell and one for itself. -/
theorem chain_used (dependencies n row : Nat) (seen : List Key) (s : Evaluator Int) :
    (chain.evaluateCell dependencies n seen (chainKey row) s).2.used ≤ s.used + 2 * n := by
  induction n generalizing row seen s with
  | zero => exact Nat.le_add_right _ _
  | succ n ih =>
    have reading : (chain.resolve dependencies
        (chain.evaluateCell dependencies n (chainKey row :: seen))
        ⟨none, .ofNat (row + 1), 0⟩ s.count).2.used ≤ s.used + 2 * (n + 1) := by
      unfold resolve
      cases content : chain.found ⟨none, .ofNat (row + 1), 0⟩ with
      | none =>
        simp only [Evaluator.count_used]
        omega
      | some c =>
        dsimp only
        split
        · simp only [Evaluator.count_used]
          omega
        · cases c with
          | inl v =>
            simp only [Evaluator.count_used]
            omega
          | inr k =>
            obtain ⟨next, _, _, rfl⟩ := chain_found content
            have below := ih next (chainKey row :: seen) s.count.count
            simp only [Evaluator.count_used] at below
            dsimp only
            omega
    rw [evaluateCell_succ]
    split
    · exact Nat.le_add_right _ _
    · split
      · exact Nat.le_add_right _ _
      · split
        · simp only [Evaluator.count_used]
          omega
        · rw [settle_used, chain_program, Query.serve_single]
          exact reading

theorem chain_inBudget (row : Nat) : chain.InBudget MAX_DEPENDENCIES (chainKey row) :=
  Nat.le_trans (chain_used MAX_DEPENDENCIES (MAX_CALL_DEPTH + 1) row [] _) (by decide)

theorem chain_inDepth {row : Nat} (deep : (chain.valueWithin (MAX_CALL_DEPTH + 1)
    (chainKey row)).isSome) : chain.InDepth (chainKey row) :=
  Option.isSome_iff_exists.mp deep

theorem evaluateCells_eq_chain :
    ∃ value : Key → Answer Int, (∀ k, chain.Evaluates k (value k)) ∧
      (chain.evaluateCells MAX_DEPENDENCIES [chainKey 52, chainKey 2, chainKey 51] .fresh).1 =
        [some (value (chainKey 52)), some (value (chainKey 2)), some (value (chainKey 51))] := by
  obtain ⟨value, evaluates, eq⟩ := evaluateCells_eq chain MAX_DEPENDENCIES chain_acyclic
  refine ⟨value, evaluates, eq [chainKey 52, chainKey 2, chainKey 51] ?_⟩
  intro k on
  simp only [List.mem_cons, List.not_mem_nil, or_false] at on
  rcases on with rfl | rfl | rfl
  · exact ⟨chain_inDepth (by decide +kernel), chain_inBudget 52⟩
  · exact ⟨chain_inDepth (by decide +kernel), chain_inBudget 2⟩
  · exact ⟨chain_inDepth (by decide +kernel), chain_inBudget 51⟩

def shown : Option (Answer Int) → Option (Text ⊕ Int)
  | some (.ok (.text s)) => some (.inl s)
  | some (.ok (.number n)) => some (.inr n)
  | _ => none

/-- A1 alone is an error, and after A52 on the same evaluator it is a number. -/
theorem evaluateCells_depends_on_order :
    chain.Acyclic ∧ (∀ cell k, chain.found cell = some (.inr k) → chain.InBudget MAX_DEPENDENCIES k) ∧
      (chain.evaluateCells MAX_DEPENDENCIES [chainKey 0] .fresh).1.map shown =
        [some (.inl CYCLE_ERROR)] ∧
      (chain.evaluateCells MAX_DEPENDENCIES [chainKey 51, chainKey 0] .fresh).1.map shown =
        [some (.inr 7), some (.inr 7)] := by
  refine ⟨chain_acyclic, ?_, by decide +kernel, by decide +kernel⟩
  intro cell k content
  obtain ⟨row, _, _, rfl⟩ := chain_found content
  exact chain_inBudget row

end Chain

end Sheets
end Plexichat.Sum.Formula
