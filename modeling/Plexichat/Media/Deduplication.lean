import Mathlib.Data.Fintype.Fin
import Mathlib.Tactic.FinCases
import Plexichat.Library.Interleaving

/-! core/media/deduplication/dedup.py: the row of one content hash in media_file_hashes, registered
and released by calls that run side by side. -/
namespace Plexichat.Media.Deduplication
open Transition Interleaving

structure Row where
  id : Nat
  referenceCount : Int
  deriving DecidableEq

/-- The row, the next snowflake, and how many registrations and releases have returned. Each report
that no references are left comes with the number that there were. -/
structure Shared where
  row : Option Row
  fresh : Nat
  registered : Int
  released : Int
  reports : List Int

inductive Phase where
  | idle
  /-- The row is found, -/
  | incrementing (id : Nat)
  /-- or none is, and the snowflake is drawn. -/
  | inserting (id : Nat)
  /-- More than one reference is found, -/
  | decrementing (id : Nat)
  /-- or one. -/
  | deleting (id : Nat)

inductive Action where
  | registerFile
  | decrementReference
  | advance

namespace Shared

variable (s : Shared)

def report : Shared := { s with reports := s.reports ++ [s.registered - s.released] }

def registerFile : Shared × Phase :=
  match s.row with
  | some row => (s, .incrementing row.id)
  | none => ({ s with fresh := s.fresh + 1 }, .inserting s.fresh)

def decrementReference : Shared × Phase :=
  match s.row with
  | none => ({ s with released := s.released + 1 }.report, .idle)
  | some row => if row.referenceCount ≤ 1 then (s, .deleting row.id) else (s, .decrementing row.id)

def update (id : Nat) (change : Int) : Option Row :=
  s.row.map fun row =>
    if row.id = id then { row with referenceCount := row.referenceCount + change } else row

def run : Phase → Shared
  | .idle => s
  | .incrementing id => { s with row := s.update id 1, registered := s.registered + 1 }
  | .inserting id =>
    match s.row with
    | none => { s with row := some ⟨id, 1⟩, registered := s.registered + 1 }
    -- the hash is unique: the call raises
    | some _ => s
  | .decrementing id => { s with row := s.update id (-1), released := s.released + 1 }
  | .deleting id =>
    { s with row := s.row.filter (·.id ≠ id), released := s.released + 1 }.report

end Shared

variable (enabled : Bool)

def next (s : Shared) (p : Phase) (a : Action) : Option (Shared × Phase) :=
  match p, a with
  | .idle, .registerFile => some (if enabled then s.registerFile else (s, .idle))
  | .idle, .decrementReference => some (if enabled then s.decrementReference else (s.report, .idle))
  | .idle, .advance => none
  | p, .advance => some (s.run p, .idle)
  | _, _ => none

abbrev World (ι : Type) := Interleaving.State ι Shared Phase

variable {ι : Type}

def init (s : World ι) : Prop :=
  s.shared.row = none ∧ s.shared.registered = 0 ∧ s.shared.released = 0 ∧ s.shared.reports = [] ∧
    ∀ i, s.pc i = .idle

/-- The row is still as a call has found it: there, with a second reference where one is taken
off, with no second one where it is deleted. What is released was registered. -/
def AsFound (s : World ι) (a : ι × Action) : Prop :=
  match s.pc a.1, a.2 with
  | .idle, .decrementReference => enabled = true → s.shared.row ≠ none
  | .incrementing id, .advance => ∃ count, s.shared.row = some ⟨id, count⟩
  | .decrementing id, .advance => ∃ count > 1, s.shared.row = some ⟨id, count⟩
  | .deleting id, .advance => ∃ count ≤ 1, s.shared.row = some ⟨id, count⟩
  | _, _ => True

structure Shared.Exact (s : Shared) : Prop where
  count : ∀ row, s.row = some row → row.referenceCount = s.registered - s.released
  left : ∀ row, s.row = some row → 0 < row.referenceCount
  absent : s.row = none → s.registered = s.released
  reports : ∀ n ∈ s.reports, n = 0

variable {enabled} {s : Shared}

theorem update_found {id : Nat} {count : Int} (found : s.row = some ⟨id, count⟩) (change : Int) :
    s.update id change = some ⟨id, count + change⟩ := by
  simp [Shared.update, found]

theorem Shared.Exact.report (exact : s.Exact) (zero : s.registered = s.released) :
    s.report.Exact := by
  refine ⟨exact.count, exact.left, exact.absent, ?_⟩
  intro n member
  rcases List.mem_append.mp member with old | new
  · exact exact.reports n old
  · rw [List.mem_singleton.mp new, zero, Int.sub_self]

theorem Shared.Exact.increment (exact : s.Exact) {id : Nat} {count : Int}
    (found : s.row = some ⟨id, count⟩) : (s.run (.incrementing id)).Exact := by
  have known : count = s.registered - s.released := exact.count _ found
  have some_left : 0 < count := exact.left _ found
  have row : (s.run (.incrementing id)).row = some ⟨id, count + 1⟩ := update_found found 1
  refine ⟨?_, ?_, ?_, exact.reports⟩
  · intro r here
    cases row.symm.trans here
    show count + 1 = s.registered + 1 - s.released
    omega
  · intro r here
    cases row.symm.trans here
    show 0 < count + 1
    omega
  · intro absent
    cases row.symm.trans absent

theorem Shared.Exact.insert (exact : s.Exact) (id : Nat) : (s.run (.inserting id)).Exact := by
  cases found : s.row with
  | some row =>
    have same : s.run (.inserting id) = s := by simp only [Shared.run, found]
    exact same.symm ▸ exact
  | none =>
    have even := exact.absent found
    have after : s.run (.inserting id) =
        { s with row := some ⟨id, 1⟩, registered := s.registered + 1 } := by
      simp only [Shared.run, found]
    rw [after]
    refine ⟨?_, ?_, fun empty => (by cases empty), exact.reports⟩
    · intro r here
      cases here
      show 1 = s.registered + 1 - s.released
      omega
    · intro r here
      cases here
      exact Int.one_pos

theorem Shared.Exact.decrement (exact : s.Exact) {id : Nat} {count : Int} (more : count > 1)
    (found : s.row = some ⟨id, count⟩) : (s.run (.decrementing id)).Exact := by
  have known : count = s.registered - s.released := exact.count _ found
  have row : (s.run (.decrementing id)).row = some ⟨id, count + -1⟩ := update_found found (-1)
  refine ⟨?_, ?_, ?_, exact.reports⟩
  · intro r here
    cases row.symm.trans here
    show count + -1 = s.registered - (s.released + 1)
    omega
  · intro r here
    cases row.symm.trans here
    show 0 < count + -1
    omega
  · intro absent
    cases row.symm.trans absent

theorem Shared.Exact.delete (exact : s.Exact) {id : Nat} {count : Int} (last : count ≤ 1)
    (found : s.row = some ⟨id, count⟩) : (s.run (.deleting id)).Exact := by
  have known : count = s.registered - s.released := exact.count _ found
  have some_left : 0 < count := exact.left _ found
  have gone : s.row.filter (·.id ≠ id) = none := by simp [found]
  have even : s.registered = s.released + 1 := by omega
  refine Shared.Exact.report (s := { s with
    row := s.row.filter (·.id ≠ id), released := s.released + 1 }) ⟨?_, ?_, ?_, exact.reports⟩ even
  · intro r here
    cases gone.symm.trans here
  · intro r here
    cases gone.symm.trans here
  · exact fun _ => even

theorem Shared.Exact.registerFile (exact : s.Exact) : s.registerFile.1.Exact := by
  unfold Shared.registerFile
  split
  · exact exact
  · exact ⟨exact.count, exact.left, exact.absent, exact.reports⟩

theorem Shared.Exact.decrementReference (exact : s.Exact) (there : s.row ≠ none) :
    s.decrementReference.1.Exact := by
  unfold Shared.decrementReference
  split
  · rename_i absent
    exact absurd absent there
  · split <;> exact exact

def Off (enabled : Bool) (s : Shared) : Prop := enabled = false → s.row = none

def Returns (enabled : Bool) (_ : Shared) (p : Phase) : Prop := enabled = false → p = .idle

variable [DecidableEq ι]

theorem exact_throughout {s : World ι} (run : Guarded (step (next enabled)) (AsFound enabled) init s) :
    Holds (fun s => s.Exact ∧ Off enabled s) (Returns enabled) (fun _ _ => True) s := by
  refine holds_throughout ?_ ?_ run
  · rintro s ⟨empty, none_in, none_out, silent, idle⟩
    refine ⟨⟨⟨?_, ?_, ?_, ?_⟩, fun _ => empty⟩, fun i _ => idle i, fun _ _ _ => trivial⟩
    · intro row here
      cases empty.symm.trans here
    · intro row here
      cases empty.symm.trans here
    · exact fun _ => none_in.trans none_out.symm
    · rw [silent]
      exact fun n member => absurd member List.not_mem_nil
  · intro s i a r holds found moved
    have exact := holds.shared.1
    have off := holds.shared.2
    have returns := holds.each i
    have others : ∀ j ≠ i, Returns enabled r.1 (s.pc j) ∧ True ∧ True :=
      fun j _ => ⟨holds.each j, trivial, trivial⟩
    suffices own : (r.1.Exact ∧ Off enabled r.1) ∧ Returns enabled r.1 r.2 from
      ⟨own.1, own.2, others⟩
    unfold AsFound at found
    generalize s.pc i = p at found moved returns
    cases enabled with
    | false =>
      cases returns rfl
      cases a with
      | registerFile =>
        cases moved
        exact ⟨⟨exact, off⟩, fun _ => rfl⟩
      | decrementReference =>
        cases moved
        exact ⟨⟨exact.report (exact.absent (off rfl)), off⟩, fun _ => rfl⟩
      | advance => cases moved
    | true =>
      suffices kept : r.1.Exact from ⟨⟨kept, fun h => by cases h⟩, fun h => by cases h⟩
      cases p with
      | idle =>
        cases a with
        | registerFile =>
          cases moved
          exact exact.registerFile
        | decrementReference =>
          cases moved
          exact exact.decrementReference (found rfl)
        | advance => cases moved
      | incrementing id =>
        cases a <;> cases moved
        obtain ⟨count, here⟩ := found
        exact exact.increment here
      | inserting id =>
        cases a <;> cases moved
        exact exact.insert id
      | decrementing id =>
        cases a <;> cases moved
        obtain ⟨count, more, here⟩ := found
        exact exact.decrement more here
      | deleting id =>
        cases a <;> cases moved
        obtain ⟨count, last, here⟩ := found
        exact exact.delete last here

/-- In a run in which every statement meets the row as its call has found it, the count is that of
the references, no row stands for none, and no report is wrong. -/
theorem references_exact (enabled : Bool) (s : World ι)
    (run : Guarded (step (next enabled)) (AsFound enabled) init s) :
    (s.shared.row = none ↔ s.shared.registered - s.shared.released = 0) ∧
      (∀ row, s.shared.row = some row →
        row.referenceCount = s.shared.registered - s.shared.released) ∧
      ∀ n ∈ s.shared.reports, n = 0 := by
  have exact := (exact_throughout run).shared.1
  refine ⟨⟨?_, ?_⟩, exact.count, exact.reports⟩
  · intro absent
    exact Int.sub_eq_zero.mpr (exact.absent absent)
  · intro zero
    cases found : s.shared.row with
    | none => rfl
    | some row =>
      have left := exact.left row found
      have count := exact.count row found
      omega

def first : World (Fin 2) := ⟨⟨none, 1, 0, 0, []⟩, fun _ => .idle⟩

theorem init_first : init first := ⟨rfl, rfl, rfl, rfl, fun _ => rfl⟩

theorem references_exact_shared : ∃ s : World (Fin 2), s.shared.row = some ⟨1, 1⟩ ∧
    s.shared.registered - s.shared.released = 1 := by
  have exact := references_exact true _
    (.step (a := (1, .advance)) (.step (a := (1, .decrementReference))
      (.step (a := (1, .advance)) (.step (a := (1, .registerFile))
        (.step (a := (0, .advance)) (.step (a := (0, .registerFile)) (.start init_first)
          (by trivial) rfl) (by trivial) rfl) (by trivial) rfl) (by exact ⟨1, rfl⟩) rfl)
      (by exact fun _ absent => by cases absent) rfl) (by exact ⟨2, by decide, rfl⟩) rfl)
  exact ⟨_, rfl, (exact.2.1 _ rfl).symm⟩

/-- A registration between the SELECT and the DELETE of a release is lost with the row. -/
theorem references_lost : ∃ s : World (Fin 2), Reachable (step (next true)) init s ∧
    (∀ i, s.pc i = .idle) ∧ s.shared.row = none ∧
    s.shared.registered - s.shared.released = 1 ∧ s.shared.reports = [1] := by
  refine ⟨_, reachable_of_run [(0, .registerFile), (0, .advance), (0, .decrementReference),
    (1, .registerFile), (1, .advance), (0, .advance)] init_first rfl, ?_, rfl, rfl, rfl⟩
  intro i
  fin_cases i <;> rfl

end Plexichat.Media.Deduplication
