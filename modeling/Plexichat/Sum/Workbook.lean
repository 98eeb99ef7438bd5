import Mathlib.Logic.Basic
import Plexichat.Library.Table

/-! suite/sum: the workbook file of schema.py, and the statements by which an operation of
manager_operations.py and a replay of manager_sessions.py change it. JSON is text. -/
namespace Plexichat.Sum

abbrev Json := List Char

def jsonNull : Json := ['n', 'u', 'l', 'l']

inductive ValueType where
  | text | number | boolean | date | formula | error | blank
  deriving DecidableEq

inductive OperationType where
  | setCell | clearCell | setFormat | renameSheet
  | insertRows | deleteRows | insertColumns | deleteColumns
  | sortRange
  deriving DecidableEq

inductive Axis where
  | row | column
  deriving DecidableEq

structure Sheet where
  id : Nat
  name : List Char
  deleted : Bool

structure Cell where
  sheet : Nat
  row : Nat
  column : Nat
  valueType : ValueType
  value : Json
  formula : Option (List Char)
  style : Json
  revision : Nat
  updatedAt : Nat
  deriving DecidableEq

def Cell.key (c : Cell) : Nat × Nat × Nat := (c.sheet, c.row, c.column)

def Cell.index (a : Axis) (c : Cell) : Nat :=
  match a with
  | .row => c.row
  | .column => c.column

def Cell.reindex (a : Axis) (f : Nat → Nat) (c : Cell) : Cell :=
  match a with
  | .row => { c with row := f c.row }
  | .column => { c with column := f c.column }

/-- `row-{i}`, `col-{c}` of a written cell, and `column-{i}` of an inserted column. -/
inductive StableKey where
  | row (i : Nat)
  | col (c : Nat)
  | column (i : Nat)
  deriving DecidableEq

/-- A row of sum_rows or sum_columns. -/
structure AxisEntry where
  sheet : Nat
  stableKey : StableKey
  position : Nat
  deriving DecidableEq

def AxisEntry.key (e : AxisEntry) : Nat × StableKey := (e.sheet, e.stableKey)

/-- A row of sum_statistics; column_key is the text of the number. -/
structure Statistic where
  sheet : Nat
  columnKey : Nat
  accessCount : Nat
  deriving DecidableEq

def Statistic.key (s : Statistic) : Nat × Nat := (s.sheet, s.columnKey)

/-- What a normalised cell writes: `__preserve__` keeps the value and the formula. -/
inductive Content where
  | preserve
  | write (valueType : ValueType) (value : Json) (formula : Option (List Char))

structure NormalizedCell where
  row : Nat
  column : Nat
  content : Content
  style : Json

inductive Payload where
  | cells (sheet : Nat) (cells : List NormalizedCell)
  | anchor (sheet position count : Nat) (axis : Axis)
  | sort (sheet column startRow endRow : Nat) (descending : Bool)

/-- `payload.get("cells", [])`. -/
def Payload.getCells : Payload → List NormalizedCell
  | .cells _ written => written
  | _ => []

/-- A row of sum_operations, in the file or in the main database. -/
structure OperationRow where
  operationId : List Char
  actorId : Nat
  baseRevision : Nat
  resultRevision : Nat
  operationType : OperationType
  sheet : Nat
  payload : Payload
  createdAt : Nat

structure File where
  sheets : Table Sheet Sheet.id
  cells : Table Cell Cell.key
  rows : Table AxisEntry AxisEntry.key
  columns : Table AxisEntry AxisEntry.key
  statistics : Table Statistic Statistic.key
  operations : Table OperationRow OperationRow.operationId

def File.hasSheet (file : File) (sheet : Nat) : Bool :=
  file.sheets.rows.any fun s => s.id = sheet && !s.deleted

/-- The row that `_apply_normalized_cell` writes. -/
def cellRow (file : File) (sheet : Nat) (cell : NormalizedCell) (revision now : Nat) : Cell :=
  match cell.content with
  | .write valueType value formula =>
    ⟨sheet, cell.row, cell.column, valueType, value, formula, cell.style, revision, now⟩
  | .preserve =>
    match file.cells.find (sheet, cell.row, cell.column) with
    | some previous => ⟨sheet, cell.row, cell.column, previous.valueType, previous.value,
        previous.formula, cell.style, revision, now⟩
    | none =>
      ⟨sheet, cell.row, cell.column, .blank, jsonNull, none, cell.style, revision, now⟩

/-- DO UPDATE SET of every column but the key. -/
def Cell.overwrite (new old : Cell) : Cell :=
  { new with sheet := old.sheet, row := old.row, column := old.column }

def applyNormalizedCell (sheet revision now : Nat) (file : File) (cell : NormalizedCell) : File :=
  { file with
    cells := file.cells.upsert (cellRow file sheet cell revision now)
      (cellRow file sheet cell revision now).overwrite fun _ => rfl }

def applyCells (file : File) (sheet : Nat) (cells : List NormalizedCell) (revision now : Nat) :
    File := cells.foldl (applyNormalizedCell sheet revision now) file

def insertOperation (file : File) (row : OperationRow) : Option File :=
  (file.operations.insert row).map fun operations => { file with operations }

def ensureAxisMetadata (file : File) (sheet : Nat) (cells : List NormalizedCell) : File :=
  let rowsNeeded := (cells.map NormalizedCell.row).eraseDups
  let columnsNeeded := (cells.map NormalizedCell.column).eraseDups
  { file with
    rows := rowsNeeded.foldl (fun t r => t.insertOrIgnore ⟨sheet, .row r, r⟩) file.rows
    columns := columnsNeeded.foldl (fun t c => t.insertOrIgnore ⟨sheet, .col c, c⟩) file.columns }

def columnCounts (cells : List NormalizedCell) : List (Nat × Nat) :=
  (cells.map NormalizedCell.column).eraseDups.map fun c => (c, cells.countP (·.column = c))

def Statistic.add (n : Nat) (s : Statistic) : Statistic :=
  { s with accessCount := s.accessCount + n }

def countAccess (sheet : Nat) (t : Table Statistic Statistic.key) (count : Nat × Nat) :
    Table Statistic Statistic.key :=
  t.upsert ⟨sheet, count.1, count.2⟩ (Statistic.add count.2) fun _ => rfl

def bumpStatistics (file : File) (sheet : Nat) (cells : List NormalizedCell) : File :=
  { file with statistics := (columnCounts cells).foldl (countAccess sheet) file.statistics }

/-- A row of the log as `_replay_unflushed` applies it. -/
def replayRow (file : File) (row : OperationRow) : Option File :=
  insertOperation (applyCells file row.sheet row.payload.getCells row.resultRevision row.createdAt)
    { row with payload := .cells row.sheet row.payload.getCells }

/-- The same row as `apply_operation` applies it to the live copy. -/
def applyLive (file : File) (row : OperationRow) : Option File :=
  (insertOperation (applyCells file row.sheet row.payload.getCells row.resultRevision row.createdAt)
    row).map fun file =>
      bumpStatistics (ensureAxisMetadata file row.sheet row.payload.getCells) row.sheet
        row.payload.getCells

def replayUnflushed (file : File) : List OperationRow → Option File
  | [] => some file
  | row :: rows => (replayRow file row).bind fun file => replayUnflushed file rows

def maxStructuralCells : Nat := 200000

/-- The rows or columns that a structural operation inserts or deletes. -/
structure Band where
  sheet : Nat
  axis : Axis
  position : Nat
  count : Nat
  insert : Bool

def Band.shift (b : Band) (i : Nat) : Nat :=
  if b.insert then (if b.position ≤ i then i + b.count else i)
  else (if b.position + b.count ≤ i then i - b.count else i)

def Band.sourceBound (b : Band) : Nat := if b.insert then b.position else b.position + b.count

def Band.deletes (b : Band) (i : Nat) : Bool :=
  !b.insert && decide (b.position ≤ i) && decide (i < b.position + b.count)

inductive Error where
  | validation (message : String)
  | conflict (message : String)
  | notFound (message : String)
  | permission (message : String)
  | storage (message : String)
  /-- An sqlite3.IntegrityError that no handler translates. -/
  | integrity

def couldNotUpdate : Error := .storage "Workbook file could not be updated"

def updated {α : Type} : Option α → Except Error α
  | none => .error couldNotUpdate
  | some a => .ok a

/-- Delete the band from an axis table, shift the rest, and add an inserted band. -/
def shiftEntries (t : Table AxisEntry AxisEntry.key) (b : Band) (key : Nat → StableKey) :
    Table AxisEntry AxisEntry.key :=
  let kept := t.delete fun e => e.sheet = b.sheet && b.deletes e.position
  let shifted := kept.update (fun e => e.sheet = b.sheet)
    (fun e => { e with position := b.shift e.position }) fun _ => rfl
  if b.insert then
    (List.range' b.position b.count).foldl (fun t i => t.insertOrIgnore ⟨b.sheet, key i, i⟩) shifted
  else shifted

def Cell.shift (b : Band) (c : Cell) : Cell :=
  if c.sheet = b.sheet then c.reindex b.axis b.shift else c

def Statistic.shift (b : Band) (s : Statistic) : Statistic :=
  if s.sheet = b.sheet then { s with columnKey := b.shift s.columnKey } else s

/-- The cells of `_shift_axis`: count the cells to move, delete the band, move the rest. -/
def shiftCells (t : Table Cell Cell.key) (b : Band) : Except Error (Table Cell Cell.key) :=
  if maxStructuralCells < t.rows.countP
      (fun c => c.sheet = b.sheet ∧ b.sourceBound ≤ c.index b.axis) then
    .error (.validation "Operation affects too many cells; split it into smaller changes")
  else
    updated ((t.delete fun c => c.sheet = b.sheet && b.deletes (c.index b.axis)).rewrite (Cell.shift b))

def shiftStatistics (t : Table Statistic Statistic.key) (b : Band) :
    Except Error (Table Statistic Statistic.key) :=
  updated ((t.delete fun s => s.sheet = b.sheet && b.deletes s.columnKey).rewrite (Statistic.shift b))

def shiftAxis (file : File) (b : Band) : Except Error File := do
  let cells ← shiftCells file.cells b
  match b.axis with
  | .row => return { file with cells, rows := shiftEntries file.rows b .row }
  | .column =>
    let statistics ← shiftStatistics file.statistics b
    return { file with cells, statistics, columns := shiftEntries file.columns b .column }

theorem updated_eq_ok {α : Type} {o : Option α} {a : α} : updated o = .ok a ↔ o = some a := by
  cases o with
  | none => exact ⟨nofun, nofun⟩
  | some b => exact ⟨fun h => congrArg some (Except.ok.inj h), fun h => congrArg Except.ok (Option.some.inj h)⟩

theorem bind_eq_ok {α β : Type} {x : Except Error α} {f : α → Except Error β} {b : β} :
    x >>= f = .ok b ↔ ∃ a, x = .ok a ∧ f a = .ok b := by
  cases x with
  | error e => exact ⟨nofun, fun ⟨_, h, _⟩ => nomatch h⟩
  | ok a => exact ⟨fun h => ⟨a, rfl, h⟩, fun ⟨_, h, h'⟩ => Except.ok.inj h ▸ h'⟩

theorem mem_shiftCells {t t' : Table Cell Cell.key} {b : Band} (h : shiftCells t b = .ok t')
    {q : Cell} : q ∈ t' ↔ ∃ c ∈ t, (c.sheet = b.sheet → b.deletes (c.index b.axis) = false) ∧
      c.shift b = q := by
  unfold shiftCells at h
  split at h
  · cases h
  · have moved := updated_eq_ok.mp h
    rw [Table.mem_rewrite moved]
    simp only [Table.mem_delete, Bool.and_eq_false_iff, decide_eq_false_iff_not]
    constructor
    · rintro ⟨c, ⟨member, outside⟩, rfl⟩
      exact ⟨c, member, fun same => outside.resolve_left (not_not_intro same), rfl⟩
    · rintro ⟨c, member, outside, rfl⟩
      refine ⟨c, ⟨member, ?_⟩, rfl⟩
      by_cases same : c.sheet = b.sheet
      · exact .inr (outside same)
      · exact .inl same

theorem shiftAxis_cells {file file' : File} {b : Band} (h : shiftAxis file b = .ok file') :
    shiftCells file.cells b = .ok file'.cells := by
  unfold shiftAxis at h
  obtain ⟨cells, shifted, h⟩ := bind_eq_ok.mp h
  rw [shifted]
  cases axis : b.axis with
  | row =>
    rw [axis] at h
    cases h
    rfl
  | column =>
    rw [axis] at h
    obtain ⟨statistics, _, h⟩ := bind_eq_ok.mp h
    cases h
    rfl

end Plexichat.Sum
