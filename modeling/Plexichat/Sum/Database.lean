import Mathlib.Data.List.Sort
import Plexichat.Sum.Structural

/-! suite/sum: the rows of one workbook in the main database, the live session of a process,
and the three transactions of manager_revisions.py and manager_sessions.py. A stored blob is
a value of `φ`. -/
namespace Plexichat.Sum

structure Database (φ : Type) where
  ownerId : Nat
  currentRevision : Nat
  blobRevision : Nat
  blob : φ
  operations : Table OperationRow OperationRow.operationId
  ranges : List RangePermission

/-- `_LiveSession`. -/
structure Session (φ : Type) where
  file : φ
  loadedBlobRevision : Nat
  pending : Nat
  lastFlushMs : Nat

variable {φ : Type}

namespace Database

def rowsAfter (db : Database φ) (revision : Nat) : List OperationRow :=
  (db.operations.rows.filter fun row => revision < row.resultRevision).insertionSort
    fun a b => a.resultRevision ≤ b.resultRevision

def compacted (db : Database φ) (revision : Nat) : Table OperationRow OperationRow.operationId :=
  db.operations.delete fun row => decide (row.resultRevision ≤ revision)

/-- `_append_op_durable`: the compare-and-set of current_revision and the log row. -/
def appendOpDurable (db : Database φ) (row : OperationRow) : Except Error (Database φ) :=
  if db.currentRevision = row.baseRevision then
    match db.operations.insert row with
    | none => .error .integrity
    | some operations => .ok { db with currentRevision := row.resultRevision, operations }
  else .error (.conflict "Workbook revision has moved on")

/-- `_publish_revision`: the compare-and-set of current_revision and the new blob. -/
def publishRevision (db : Database φ) (expected revision : Nat) (file : φ) :
    Except Error (Database φ) :=
  if db.currentRevision = expected then
    .ok { db with
      currentRevision := revision
      blobRevision := revision
      blob := file
      operations := db.compacted revision }
  else .error (.conflict "Workbook revision changed during update")

/-- The transaction of `_flush_session_unlocked`, a compare-and-set of blob_revision. -/
def flush (db : Database φ) (loaded revision : Nat) (file : φ) : Except Error (Database φ) :=
  if db.blobRevision = loaded then
    .ok { db with blobRevision := revision, blob := file, operations := db.compacted revision }
  else .error (.conflict "Workbook was flushed by another writer")

def logStructural (db : Database φ) (row : OperationRow) : Except Error (Database φ) :=
  match db.operations.insert row with
  | none => .error .integrity
  | some operations => .ok { db with operations }

theorem appendOpDurable_eq_ok {db db' : Database φ} {row : OperationRow} :
    db.appendOpDurable row = .ok db' ↔ db.currentRevision = row.baseRevision ∧
      ∃ operations, db.operations.insert row = some operations ∧
        { db with currentRevision := row.resultRevision, operations } = db' := by
  unfold appendOpDurable
  split
  · rename_i current
    cases db.operations.insert row with
    | none => exact ⟨nofun, fun h => nomatch h.2⟩
    | some operations =>
      constructor
      · intro h
        exact ⟨current, operations, rfl, Except.ok.inj h⟩
      · rintro ⟨_, _, ⟨⟩, rfl⟩
        rfl
  · rename_i moved
    exact ⟨nofun, fun h => absurd h.1 moved⟩

theorem publishRevision_eq_ok {db db' : Database φ} {expected revision : Nat} {file : φ} :
    db.publishRevision expected revision file = .ok db' ↔ db.currentRevision = expected ∧
      { db with
        currentRevision := revision
        blobRevision := revision
        blob := file
        operations := db.compacted revision } = db' := by
  unfold publishRevision
  split
  · rename_i current
    exact ⟨fun h => ⟨current, Except.ok.inj h⟩, fun h => congrArg Except.ok h.2⟩
  · rename_i moved
    exact ⟨nofun, fun h => absurd h.1 moved⟩

theorem flush_eq_ok {db db' : Database φ} {loaded revision : Nat} {file : φ} :
    db.flush loaded revision file = .ok db' ↔ db.blobRevision = loaded ∧
      { db with blobRevision := revision, blob := file, operations := db.compacted revision } =
        db' := by
  unfold flush
  split
  · rename_i current
    exact ⟨fun h => ⟨current, Except.ok.inj h⟩, fun h => congrArg Except.ok h.2⟩
  · rename_i moved
    exact ⟨nofun, fun h => absurd h.1 moved⟩

theorem logStructural_eq_ok {db db' : Database φ} {row : OperationRow} :
    db.logStructural row = .ok db' ↔
      ∃ operations, db.operations.insert row = some operations ∧ { db with operations } = db' := by
  unfold logStructural
  cases db.operations.insert row with
  | none => exact ⟨nofun, fun h => nomatch h⟩
  | some operations =>
    constructor
    · intro h
      exact ⟨operations, rfl, Except.ok.inj h⟩
    · rintro ⟨_, ⟨⟩, rfl⟩
      rfl

end Database

end Plexichat.Sum
