import Mathlib.Algebra.Order.Field.Rat
import Mathlib.Data.List.Sort
import Plexichat.Sum.Structural

/-! The data mutations of suite/sum on the current workbook: the operations, sort_range and
import_csv of manager_data.py, and the full-file writes. The formula evaluator and the
data-validation rules are parameters. -/
namespace Plexichat.Sum

structure Call where
  user : Nat
  operationId : List Char
  baseRevision : Nat
  now : Nat

def Call.row (call : Call) (base : Nat) (type : OperationType) (sheet : Nat) (payload : Payload) :
    OperationRow :=
  ⟨call.operationId, call.user, base, base + 1, type, sheet, payload, call.now⟩

def sheetNotFound : Error := .notFound "Sheet not found"

def revisionConflict : Error := .conflict "Workbook revision has moved on"

def checkRangePermissions (d : Document) (sheet : Nat) (cells : List NormalizedCell) (user : Nat) :
    Except Error Unit :=
  if d.ownerId = user then .ok ()
  else if cells.any fun c => d.protects sheet c.row c.column then
    .error (.permission "This range is read-only for your access level")
  else .ok ()

def normalizeCell (type : OperationType) (cell : RawCell) : Except Error NormalizedCell :=
  match cell.row, cell.column with
  | some row, some column =>
    if row < 0 ∨ column < 0 ∨ 10000000 < row ∨ 16384 < column then
      .error (.validation "Cell coordinates are out of bounds")
    else
      let place := NormalizedCell.mk row.toNat column.toNat
      match type with
      | .clearCell => .ok (place (.write .blank jsonNull none) cell.style)
      | .setFormat => .ok (place .preserve cell.style)
      | _ =>
        match cell.valueType with
        | none => .error (.validation "Unknown cell value type")
        | some valueType => .ok (place (.write valueType cell.value cell.formula) cell.style)
  | _, _ => .error (.validation "Each cell needs numeric row and column")

def normalizeCells (type : OperationType) (cells : List RawCell) :
    Except Error (List NormalizedCell) := cells.mapM (normalizeCell type)

def maxOperationCells : Nat := 2000
def maxCsvRows : Nat := 10000

structure Request where
  sheet : Nat
  type : OperationType
  cells : List RawCell

def checkRequest (call : Call) (r : Request) : Except Error Unit :=
  if call.operationId = [] ∨ 200 < call.operationId.length then
    .error (.validation "operation_id is required")
  else if r.type = .sortRange then .error (.validation "Unsupported operation type")
  else if r.type = .renameSheet then
    .error (.validation "rename_sheet is handled by the sheet rename endpoint")
  else if r.cells.isEmpty ∨ maxOperationCells < r.cells.length then
    .error (.validation "Operation must contain 1 to 2000 cells")
  else .ok ()

section Edits

variable (validates : File → Nat → List NormalizedCell → Bool)

/-- The checks of the second critical section: the sheet, `_validate_cells`, and the ranges. -/
def checkCells (user sheet : Nat) (cells : List NormalizedCell) (d : Document) :
    Except Error Unit :=
  if d.file.hasSheet sheet then
    if validates d.file sheet cells then checkRangePermissions d sheet cells user
    else .error (.validation "Value does not meet the validation rule")
  else .error sheetNotFound

def edit (call : Call) (r : Request) (d : Document) : Except Error Document := do
  if r.type.structural then
    let b ← anchorBand r.type r.sheet r.cells
    applyStructural call.user b (call.row d.revision r.type r.sheet
      (.anchor b.sheet b.position b.count b.axis)) d
  else
    let cells ← normalizeCells r.type r.cells
    checkCells validates call.user r.sheet cells d
    let file ← updated (applyLive d.file
      (call.row d.revision r.type r.sheet (.cells r.sheet cells)))
    return { d with revision := d.revision + 1, file }

def applyToDocument (call : Call) (r : Request) (d : Document) : Except Error Document := do
  checkRequest call r
  if call.baseRevision = d.revision then
    if (d.file.operations.find call.operationId).isSome then return d else edit validates call r d
  else throw revisionConflict

def Document.publish (d : Document) (file : File) : Document :=
  { d with revision := d.revision + 1, file }

def chunks (cells : List NormalizedCell) : List (List NormalizedCell) :=
  (List.range ((cells.length + maxOperationCells - 1) / maxOperationCells)).map fun i =>
    (cells.drop (i * maxOperationCells)).take maxOperationCells

def importChunks (call : Call) (sheet : Nat) (ids : Nat → List Char) :
    File → Nat → Nat → List (List NormalizedCell) → Option (File × Nat)
  | file, revision, _, [] => some (file, revision)
  | file, revision, i, chunk :: chunks =>
    (insertOperation (applyCells file sheet chunk (revision + 1) call.now)
      { call.row revision .setCell sheet (.cells sheet chunk) with operationId := ids i }).bind
        fun file => importChunks call sheet ids file (revision + 1) (i + 1) chunks

/-- import_csv with the cells read from the content; `ids` are the ids of the chunks. -/
def importCsv (call : Call) (sheet : Nat) (ids : Nat → List Char) (cells : List NormalizedCell)
    (raw : List RawCell) (d : Document) : Except Error Document :=
  if cells.isEmpty then .error (.validation "CSV payload contains no cells")
  else if cells.length ≤ maxOperationCells then
    applyToDocument validates call ⟨sheet, .setCell, raw⟩ d
  else if call.baseRevision = d.revision then do
    checkRangePermissions d sheet cells call.user
    if d.file.hasSheet sheet then
      if validates d.file sheet cells then
        let imported ← updated (importChunks call sheet ids d.file d.revision 0 (chunks cells))
        return { d with
          revision := imported.2
          file := bumpStatistics (ensureAxisMetadata imported.1 sheet cells) sheet cells }
      else throw (.validation "Value does not meet the validation rule")
    else throw sheetNotFound
  else .error revisionConflict

end Edits

/-- The computed value of a key cell: a boolean counts as a number, an error as blank. -/
inductive Computed where
  | number (q : ℚ)
  /-- The code points of the lower-cased text. -/
  | text (codes : List Nat)
  | blank

structure SortKey where
  group : Nat
  number : ℚ
  text : List Int
  row : Nat

def SortKey.le (a b : SortKey) : Bool :=
  if a.group ≠ b.group then a.group < b.group
  else if a.number ≠ b.number then a.number < b.number
  else if a.text ≠ b.text then a.text < b.text
  else a.row ≤ b.row

def directedKey (descending : Bool) (value : Computed) (row : Nat) : SortKey :=
  match value with
  | .number q => ⟨0, if descending then -q else q, [], row⟩
  | .text codes => ⟨1, 0, codes.map fun c => if descending then 0xFFFF - (c : Int) else c, row⟩
  | .blank => ⟨2, 0, [], row⟩

/-- `chr` refuses a negative number. -/
def Computed.invertible : Computed → Bool
  | .text codes => codes.all (· ≤ 0xFFFF)
  | _ => true

structure SortRange where
  sheet : Nat
  column : Nat
  startRow : Nat
  endRow : Nat
  descending : Bool

def SortRange.contains (s : SortRange) (c : Cell) : Bool :=
  decide (c.sheet = s.sheet) && decide (s.startRow ≤ c.row) && decide (c.row < s.endRow)

section Sorting

variable (computed : File → Nat → Nat → Nat → Computed)

def SortRange.cells (s : SortRange) (file : File) : List Cell := file.cells.rows.filter s.contains

def SortRange.rowKeys (s : SortRange) (file : File) : List Nat :=
  ((s.cells file).map Cell.row).eraseDups.insertionSort (· ≤ ·)

def SortRange.keyOf (s : SortRange) (file : File) (row : Nat) : SortKey :=
  directedKey s.descending (computed file s.sheet row s.column) row

def SortRange.sortedRows (s : SortRange) (file : File) : List Nat :=
  (s.rowKeys file).insertionSort fun a b => (s.keyOf computed file a).le (s.keyOf computed file b)

def SortRange.target (s : SortRange) (file : File) : List Cell :=
  (s.sortedRows computed file).zipIdx.flatMap fun placed =>
    ((s.cells file).filter fun c => c.row = placed.1).map fun c =>
      { c with row := s.startRow + placed.2 }

def insertAll (t : Table Cell Cell.key) : List Cell → Option (Table Cell Cell.key)
  | [] => some t
  | c :: cells => (t.insert c).bind fun t => insertAll t cells

def sortRange (call : Call) (s : SortRange) (d : Document) : Except Error Document :=
  if call.baseRevision ≠ d.revision then .error revisionConflict
  else if s.endRow ≤ s.startRow then
    .error (.validation "end_row must be greater than start_row")
  else if maxCsvRows < s.endRow - s.startRow then .error (.validation "Sort range is too large")
  else if 16384 < s.column then .error (.validation "Column is out of bounds")
  else if !d.file.hasSheet s.sheet then .error sheetNotFound
  else if maxStructuralCells < (s.cells d.file).length then
    .error (.validation "Sort range affects too many cells")
  else if (s.rowKeys d.file).length < 2 then .ok d
  else if s.descending && !(s.rowKeys d.file).all
      (fun row => (computed d.file s.sheet row s.column).invertible) then
    .error .integrity
  else do
    let cells ← updated (insertAll (d.file.cells.delete s.contains) (s.target computed d.file))
    let file ← updated (insertOperation { d.file with cells } (call.row d.revision .sortRange s.sheet
      (.sort s.sheet s.column s.startRow s.endRow s.descending)))
    return d.publish file

end Sorting

def uploadFile (call : Call) (base : Bool) (file : File) (d : Document) : Except Error Document :=
  if base && call.baseRevision ≠ d.revision then .error revisionConflict else .ok (d.publish file)

def restoreSnapshot (snapshot : Option File) (d : Document) : Except Error Document :=
  match snapshot with
  | none => .error (.notFound "Snapshot not found")
  | some file => .ok (d.publish file)

def checkSheetName (name : List Char) (file : File) (others : Sheet → Bool) : Except Error Unit :=
  if name = [] ∨ 200 < name.length then
    .error (.validation "sheet name must be between 1 and 200 characters")
  else if file.sheets.rows.any fun s => s.name = name && !s.deleted && others s then
    .error (.validation "A sheet with this name already exists")
  else .ok ()

def createSheet (id : Nat) (name : List Char) (d : Document) : Except Error Document := do
  checkSheetName name d.file fun _ => true
  let sheets ← updated (d.file.sheets.insert ⟨id, name, false⟩)
  return d.publish { d.file with sheets }

def renameSheet (sheet : Nat) (name : List Char) (d : Document) : Except Error Document := do
  if d.file.hasSheet sheet then
    checkSheetName name d.file fun s => s.id ≠ sheet
    return d.publish { d.file with
      sheets := d.file.sheets.update (·.id = sheet) (fun s => { s with name }) fun _ => rfl }
  else throw sheetNotFound

def deleteSheet (sheet : Nat) (d : Document) : Except Error Document :=
  if d.file.hasSheet sheet then
    if d.file.sheets.rows.all fun s => s.deleted || s.id = sheet then
      .error (.validation "A workbook must keep at least one sheet")
    else .ok (d.publish { d.file with
      sheets := d.file.sheets.update (·.id = sheet) (fun s => { s with deleted := true })
        fun _ => rfl })
  else .error sheetNotFound

/-- The users of `_mutate_file`: freeze panes, validations, conditional formats and comments
have tables of their own. Some look for the sheet first. -/
def mutateFeature (sheet : Option Nat) (d : Document) : Except Error Document :=
  if sheet.all d.file.hasSheet then .ok (d.publish d.file) else .error sheetNotFound

inductive Mutation where
  | operation (r : Request)
  | sort (s : SortRange)
  | importCsv (sheet : Nat) (ids : Nat → List Char) (cells : List NormalizedCell)
      (raw : List RawCell)
  | upload (base : Bool) (file : File)
  | restore (snapshot : Option File)
  | createSheet (id : Nat) (name : List Char)
  | renameSheet (sheet : Nat) (name : List Char)
  | deleteSheet (sheet : Nat)
  | feature (sheet : Option Nat)

def mutate (validates : File → Nat → List NormalizedCell → Bool)
    (computed : File → Nat → Nat → Nat → Computed) (call : Call) :
    Mutation → Document → Except Error Document
  | .operation r => applyToDocument validates call r
  | .sort s => sortRange computed call s
  | .importCsv sheet ids cells raw => importCsv validates call sheet ids cells raw
  | .upload base file => uploadFile call base file
  | .restore snapshot => restoreSnapshot snapshot
  | .createSheet id name => createSheet id name
  | .renameSheet sheet name => renameSheet sheet name
  | .deleteSheet sheet => deleteSheet sheet
  | .feature sheet => mutateFeature sheet

end Plexichat.Sum
