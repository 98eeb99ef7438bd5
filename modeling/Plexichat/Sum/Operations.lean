import Mathlib.Logic.Function.Basic
import Plexichat.Library.Transition
import Plexichat.Sum.Database
import Plexichat.Sum.Mutations

/-! apply_operation, session materialisation, flush and full-file writes of suite/sum, call by
call, for any number of processes over one workbook. -/
namespace Plexichat.Sum

structure Store where
  db : Database File
  sessions : Nat → Option (Session File)

structure Reply where
  revision : Nat
  replayed : Bool
  deriving DecidableEq

def maxFlushOps : Nat := 25
def maxFlushMs : Nat := 2000

def Store.setSession (s : Store) (p : Nat) (x : Option (Session File)) : Store :=
  { s with sessions := Function.update s.sessions p x }

def Store.document (s : Store) (file : File) : Document :=
  ⟨s.db.ownerId, s.db.currentRevision, file, s.db.ranges⟩

def Database.rebuilt (db : Database File) : Option File :=
  if db.blobRevision < db.currentRevision then
    replayUnflushed db.blob (db.rowsAfter db.blobRevision)
  else some db.blob

def materialize (p now : Nat) (s : Store) : Except Error File × Store :=
  match (s.sessions p).filter fun x => x.loadedBlobRevision = s.db.blobRevision with
  | some x => (.ok x.file, s)
  | none =>
    match s.db.rebuilt with
    | none => (.error .integrity, s.setSession p none)
    | some file => (.ok file, s.setSession p
        (some ⟨file, s.db.blobRevision, s.db.currentRevision - s.db.blobRevision, now⟩))

/-- `_flush_session_unlocked`; a lost compare-and-set is none. -/
def flushSession (p now : Nat) (x : Session File) (s : Store) : Option Store :=
  match s.db.flush x.loadedBlobRevision s.db.currentRevision x.file with
  | .error _ => none
  | .ok db => some (Store.setSession { s with db } p (some ⟨x.file, db.blobRevision, 0, now⟩))

def maybeFlush (p now : Nat) (s : Store) : Store :=
  match s.sessions p with
  | none => s
  | some x =>
    if x.pending < maxFlushOps ∧ now - x.lastFlushMs < maxFlushMs then s
    else (flushSession p now x s).getD (s.setSession p none)

/-- `_publish_revision` by `_write_file_revision`, which drops the session. -/
def publish (p : Nat) (file : File) (s : Store) : Except Error Store :=
  match s.db.publishRevision s.db.currentRevision (s.db.currentRevision + 1) file with
  | .error e => .error e
  | .ok db => .ok (Store.setSession { s with db } p none)

/-- The log row of a structural operation, after its file is published, and the ranges. -/
def finishStructural (row : OperationRow) (ranges : List RangePermission) (s : Store) :
    Except Error Reply × Store :=
  match s.db.logStructural row with
  | .error e => (.error e, s)
  | .ok db => (.ok ⟨row.resultRevision, false⟩, { s with db := { db with ranges } })

def Call.structuralRow (call : Call) (r : Request) (b : Band) (base : Nat) : OperationRow :=
  call.row base r.type r.sheet (.anchor b.sheet b.position b.count b.axis)

def structuralCall (p : Nat) (call : Call) (r : Request) (file : File) (s : Store) :
    Except Error Reply × Store :=
  match anchorBand r.type r.sheet r.cells with
  | .error e => (.error e, s)
  | .ok b =>
    match applyStructural call.user b (call.structuralRow r b s.db.currentRevision)
        (s.document file) with
    | .error e => (.error e, s)
    | .ok d =>
      match publish p d.file s with
      | .error e => (.error e, s)
      | .ok published =>
        finishStructural (call.structuralRow r b s.db.currentRevision) d.ranges published

def applyToSession (p : Nat) (now : Nat) (file : File) (row : OperationRow) (s : Store) :
    Except Error Reply × Store :=
  match applyLive file row with
  | none => (.error couldNotUpdate, s.setSession p none)
  | some file => (.ok ⟨row.resultRevision, false⟩, maybeFlush p now
      (s.setSession p ((s.sessions p).map fun x => { x with file, pending := x.pending + 1 })))

def Call.cellsRow (call : Call) (r : Request) (cells : List NormalizedCell) : OperationRow :=
  call.row call.baseRevision r.type r.sheet (.cells r.sheet cells)

section Calls

variable (validates : File → Nat → List NormalizedCell → Bool)

def cellCall (p : Nat) (call : Call) (r : Request) (s : Store) : Except Error Reply × Store :=
  match normalizeCells r.type r.cells with
  | .error e => (.error e, s)
  | .ok cells =>
    match materialize p call.now s with
    | (.error e, s) => (.error e, s)
    | (.ok file, s) =>
      match checkCells validates call.user r.sheet cells (s.document file) with
      | .error e => (.error e, s)
      | .ok () =>
        match s.db.appendOpDurable (call.cellsRow r cells) with
        | .error e => (.error e, s)
        | .ok db => applyToSession p call.now file (call.cellsRow r cells) { s with db }

def applyOperation (p : Nat) (call : Call) (r : Request) (s : Store) : Except Error Reply × Store :=
  match checkRequest call r with
  | .error e => (.error e, s)
  | .ok () =>
    match s.db.operations.find call.operationId with
    | some row => (.ok ⟨row.resultRevision, true⟩, s)
    | none =>
      if call.baseRevision = s.db.currentRevision then
        match materialize p call.now s with
        | (.error e, s) => (.error e, s)
        | (.ok file, s) =>
          match file.operations.find call.operationId with
          | some row => (.ok ⟨row.resultRevision, true⟩, s)
          | none =>
            if r.type.structural then structuralCall p call r file s
            else cellCall validates p call r s
      else (.error revisionConflict, s)

inductive Event where
  | apply (p : Nat) (call : Call) (r : Request)
  | read (p now : Nat)
  /-- `_evict_sessions`. -/
  | evict (p now : Nat)
  /-- `_mutate_file` and the other users of `_write_file_revision`. -/
  | rewrite (p now : Nat) (mutate : File → Option File)
  /-- upload_file and restore_snapshot. -/
  | replace (p : Nat) (file : File)

def evict (p now : Nat) (s : Store) : Store :=
  match s.sessions p with
  | none => s
  | some x =>
    if 0 < x.pending then ((flushSession p now x s).getD s).setSession p none
    else s.setSession p none

def rewrite (p now : Nat) (mutate : File → Option File) (s : Store) : Store :=
  match materialize p now s with
  | (.error _, s) => s
  | (.ok file, s) =>
    match mutate file with
    | none => s
    | some file =>
      match publish p file s with
      | .error _ => s
      | .ok s => s

def replace (p : Nat) (file : File) (s : Store) : Store :=
  match publish p file s with
  | .error _ => s
  | .ok s => s

def step (s : Store) : Event → Option Store
  | .apply p call r => some (applyOperation validates p call r s).2
  | .read p now => some (materialize p now s).2
  | .evict p now => some (evict p now s)
  | .rewrite p now mutate => some (rewrite p now mutate s)
  | .replace p file => some (replace p file s)

end Calls

/-! What a call can do. -/

@[simp] theorem setSession_db (s : Store) (p : Nat) (x : Option (Session File)) :
    (s.setSession p x).db = s.db := rfl

@[simp] theorem setSession_self (s : Store) (p : Nat) (x : Option (Session File)) :
    (s.setSession p x).sessions p = x := Function.update_self ..

theorem materialize_db (p now : Nat) (s : Store) : (materialize p now s).2.db = s.db := by
  unfold materialize
  split
  · rfl
  · split
    · rfl
    · rfl

theorem materialize_session {p now : Nat} {s t : Store} {file : File}
    (h : materialize p now s = (.ok file, t)) : ∃ x, t.sessions p = some x ∧ x.file = file ∧
      x.loadedBlobRevision = t.db.blobRevision := by
  unfold materialize at h
  split at h
  · rename_i x live
    cases h
    obtain ⟨stored, current⟩ := Option.filter_eq_some_iff.mp live
    exact ⟨x, stored, rfl, by simpa using current⟩
  · split at h
    · cases h
    · cases h
      exact ⟨_, setSession_self .., rfl, rfl⟩

theorem materialize_again {p now : Nat} {s t : Store} {file : File}
    (h : materialize p now s = (.ok file, t)) (later : Nat) :
    materialize p later t = (.ok file, t) := by
  obtain ⟨x, stored, rfl, current⟩ := materialize_session h
  have live : (t.sessions p).filter (fun x => x.loadedBlobRevision = t.db.blobRevision) = some x := by
    rw [stored, Option.filter_some, if_pos (by simpa using current)]
  unfold materialize
  rw [live]

def Unaccepted : Except Error Reply → Prop
  | .error _ => True
  | .ok reply => reply.replayed = true

inductive Outcome (p : Nat) (call : Call) (r : Request) (s : Store) :
    Except Error Reply × Store → Prop
  | unread (x : Except Error Reply) (rejected : Unaccepted x) : Outcome p call r s (x, s)
  | read (x : Except Error Reply) (rejected : Unaccepted x) :
      Outcome p call r s (x, (materialize p call.now s).2)
  | published {file : File} {t : Store} {b : Band} {d : Document} {db : Database File}
      (start : call.baseRevision = s.db.currentRevision)
      (ready : materialize p call.now s = (.ok file, t))
      (published : t.db.publishRevision t.db.currentRevision (t.db.currentRevision + 1) d.file =
        .ok db) :
      Outcome p call r s (finishStructural (call.structuralRow r b t.db.currentRevision) d.ranges
        (Store.setSession { t with db } p none))
  | appended {file : File} {t : Store} {cells : List NormalizedCell} {db : Database File}
      (start : call.baseRevision = s.db.currentRevision)
      (ready : materialize p call.now s = (.ok file, t))
      (fresh : file.operations.find call.operationId = none)
      (written : cells ≠ [])
      (appended : t.db.appendOpDurable (call.cellsRow r cells) = .ok db) :
      Outcome p call r s (applyToSession p call.now file (call.cellsRow r cells) { t with db })

theorem Outcome.of_materialized {p : Nat} {call : Call} {r : Request} {s t : Store}
    {x : Except Error Reply} {y : Except Error File} (ready : materialize p call.now s = (y, t))
    (rejected : Unaccepted x) : Outcome p call r s (x, t) := by
  have same : t = (materialize p call.now s).2 := by rw [ready]
  rw [same]
  exact .read x rejected

theorem structuralCall_outcome {p : Nat} {call : Call} {r : Request} {s t : Store} {file : File}
    (start : call.baseRevision = s.db.currentRevision)
    (ready : materialize p call.now s = (.ok file, t)) :
    Outcome p call r s (structuralCall p call r file t) := by
  have read : ∀ x, Unaccepted x → Outcome p call r s (x, t) := fun _ => .of_materialized ready
  unfold structuralCall
  split
  · exact read _ trivial
  · split
    · exact read _ trivial
    · split
      · exact read _ trivial
      · rename_i run
        unfold publish at run
        split at run
        · cases run
        · rename_i db published
          cases run
          exact .published start ready published

theorem normalizeCells_ne_nil {type : OperationType} {raw : List RawCell}
    {cells : List NormalizedCell} (h : normalizeCells type raw = .ok cells) (some_cell : raw ≠ []) :
    cells ≠ [] := by
  cases raw with
  | nil => exact absurd rfl some_cell
  | cons c raw =>
    rw [normalizeCells, List.mapM_cons] at h
    obtain ⟨first, _, h⟩ := bind_eq_ok.mp h
    obtain ⟨rest, _, h⟩ := bind_eq_ok.mp h
    cases h
    exact List.cons_ne_nil first rest

theorem cellCall_outcome {validates : File → Nat → List NormalizedCell → Bool} {p : Nat}
    {call : Call} {r : Request} {s t : Store} {file : File} (requested : r.cells ≠ [])
    (start : call.baseRevision = s.db.currentRevision)
    (ready : materialize p call.now s = (.ok file, t))
    (fresh : file.operations.find call.operationId = none) :
    Outcome p call r s (cellCall validates p call r t) := by
  have read : ∀ x, Unaccepted x → Outcome p call r s (x, t) := fun _ => .of_materialized ready
  unfold cellCall
  rw [materialize_again ready]
  split
  · exact read _ trivial
  · rename_i cells normalized
    dsimp only
    split
    · exact read _ trivial
    · split
      · exact read _ trivial
      · rename_i appended
        exact .appended start ready fresh (normalizeCells_ne_nil normalized requested) appended

theorem checkRequest_cells {call : Call} {r : Request} (h : checkRequest call r = .ok ()) :
    r.cells ≠ [] := by
  intro none_requested
  unfold checkRequest at h
  split at h
  · cases h
  split at h
  · cases h
  split at h
  · cases h
  split at h
  · cases h
  · rename_i sized
    exact sized (.inl (by rw [none_requested]; rfl))

theorem applyOperation_outcome (validates : File → Nat → List NormalizedCell → Bool) (p : Nat)
    (call : Call) (r : Request) (s : Store) :
    Outcome p call r s (applyOperation validates p call r s) := by
  unfold applyOperation
  split
  · exact .unread _ trivial
  · rename_i valid
    split
    · exact .unread _ rfl
    · split
      · rename_i start
        split
        · rename_i e t failed
          exact .of_materialized failed trivial
        · rename_i file t ready
          split
          · exact .of_materialized ready rfl
          · rename_i fresh
            split
            · exact structuralCall_outcome start ready
            · exact cellCall_outcome (checkRequest_cells valid) start ready fresh
      · exact .unread _ trivial

/-! An empty workbook of user 1, and two operations on it. -/

def emptyLedger : Store :=
  ⟨⟨1, 0, 0, (ledger .empty []).file, .empty, []⟩, fun _ => none⟩

def setDigit (digit : Char) : Request :=
  ⟨1, .setCell, [⟨some 0, some 0, none, some .number, [digit], none, jsonNull⟩]⟩

def every : File → Nat → List NormalizedCell → Bool := fun _ _ _ => true

def firstCall : Call := ⟨1, ['a'], 0, 0⟩

def afterFirst : Store := (applyOperation every 0 firstCall (setDigit '7') emptyLedger).2

def secondCall (now : Nat) : Call := ⟨1, ['b'], 1, now⟩

def afterSecond (now : Nat) : Store :=
  (applyOperation every 0 (secondCall now) (setDigit '8') afterFirst).2

end Plexichat.Sum
