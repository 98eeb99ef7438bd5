import Plexichat.Sum.Durability

/-! Whether a file that `_write_file_revision` publishes holds every operation up to the revision
that it is published over. The base is read again after the data. -/
namespace Plexichat.Sum
open Journal Transition

variable {W ι : Type} [DecidableEq W] [DecidableEq ι] {original : File}

/-- What was published over a revision is the mutation of a file of that very version, and the
blob, whoever stored it, is the version of its stamp. -/
structure WritesWhole (original : File) (s : Interleaving.State ι (Workers W) (Thread W)) :
    Prop where
  rewritten : ∀ i base b mutate, (s.pc i).phase = .done (.published base) →
    (s.pc i).job = .rewrite b mutate → ∃ file published,
      s.shared.version original base = some file.contents ∧ mutate file = .ok published ∧
        (base + 1, Write.rewrite published.contents) ∈ s.shared.history
  stored : s.shared.version original s.shared.db.blobRevision = some s.shared.db.blob.contents

theorem jobs_kept {validates : File → Nat → List NormalizedCell → Bool}
    {s₀ s : Interleaving.State ι (Workers W) (Thread W)}
    (h : Reachable (Interleaving.step (Workers.next validates)) (· = s₀) s) (i : ι) :
    (s.pc i).job = (s₀.pc i).job := by
  refine guarded_invariant (I := fun s => (s.pc i).job = (s₀.pc i).job) ?_ ?_ h
  · rintro s rfl
    rfl
  · intro s a t same _ moved
    obtain ⟨r, next, rfl⟩ := Interleaving.step_eq_some.mp moved
    obtain ⟨r, _, rfl⟩ := Option.map_eq_some_iff.mp next
    by_cases here : i = a.1
    · subst here
      rw [Interleaving.after_self]
      exact same
    · rw [Interleaving.after_other s here]
      exact same

/-! Worker 0 creates a sheet in the empty workbook while worker 1 applies an operation. -/

def addSheet (file : File) : Except Error File := do
  let d ← createSheet 2 ['B'] ⟨1, 0, file, []⟩
  return d.file

theorem addSheet_ids {file published : File} (h : addSheet file = .ok published) :
    published.contents.ids = file.contents.ids := by
  obtain ⟨d, created, h⟩ := bind_eq_ok.mp h
  cases h
  obtain ⟨_, _, created⟩ := bind_eq_ok.mp created
  obtain ⟨sheets, _, created⟩ := bind_eq_ok.mp created
  cases created
  rfl

def sheetBesideCell : Interleaving.State Client (Workers Nat) (Thread Nat) :=
  unopened fun
    | .here => .rewrite none addSheet
    | .there => .operation firstCall (setDigit '7')
    | .again => .read

def Phase.publishedOver : Phase → Option Nat
  | .done (.published base) => some base
  | _ => none

theorem Phase.publishedOver_eq_some {p : Phase} {base : Nat} (h : p.publishedOver = some base) :
    p = .done (.published base) := by
  unfold publishedOver at h
  split at h
  · cases h
    rfl
  · cases h

def rewrites (history : List (Nat × Write)) : List (Nat × List (List Char)) :=
  history.filterMap fun e =>
    match e.2 with
    | .rewrite c => some (e.1, c.ids)
    | _ => none

def operationBetween : List (Client × Nat) :=
  turns .here 4 0 ++ turns .there 10 0 ++ turns .here 3 0

def operationFirst : List (Client × Nat) := turns .there 10 0 ++ turns .here 8 0

end Plexichat.Sum
