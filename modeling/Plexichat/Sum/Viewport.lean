import Mathlib.Data.List.Infix
import Plexichat.Sum.Formula
import Plexichat.Sum.Segments
import Plexichat.Sum.SortOrder

/-! manager_viewport.py: the reading of a window of a sheet, from the stored file alone or through a
session, which fills the gaps of sum_cells from the column segments, and the rows that the filters
hide. The metadata of the sheet, which no filter asks for, is left out. -/
namespace Plexichat.Sum.Viewport

open Checks SortOrder Segments

/-- A row of sum_column_segments, whose column_id is the text of the number. -/
structure SegmentRow (F : Type) where
  sheet : Nat
  column : Nat
  segmentId : List Char
  rowStart : Nat
  rowEnd : Nat
  compressedValues : Segment F

def SegmentRow.key {F : Type} (s : SegmentRow F) : Nat × Nat × List Char :=
  (s.sheet, s.column, s.segmentId)

structure StoredFile (F : Type) where
  file : File
  segments : Table (SegmentRow F) SegmentRow.key

structure Window where
  rowStart : Nat
  rowEnd : Nat
  columnStart : Nat
  columnEnd : Nat

def Window.rows (w : Window) : List Nat := List.range' w.rowStart (w.rowEnd - w.rowStart)
def Window.columns (w : Window) : List Nat := List.range' w.columnStart (w.columnEnd - w.columnStart)

def Window.covers (w : Window) (row column : Nat) : Bool :=
  w.rowStart ≤ row && row < w.rowEnd && w.columnStart ≤ column && column < w.columnEnd

def MAX_VIEWPORT_CELLS : Nat := 5000

inductive Failure where
  | invalidBounds | tooLarge | sheetNotFound
  /-- What is raised by a formula or by `float` of an integer. -/
  | raised
  deriving DecidableEq

/-- A row of the SELECT, or one merged from a segment. -/
structure FetchedRow where
  row : Nat
  column : Nat
  valueType : List Char
  value : Option (List Char)
  formula : Option (List Char)
  style : Option (List Char)
  revision : Nat
  deriving DecidableEq

structure FormulaCall where
  row : Nat
  column : Nat
  formula : List Char

structure ViewCell where
  row : Nat
  column : Nat
  valueType : List Char
  value : KeyValue
  formula : Option (List Char)
  style : KeyValue
  revision : Nat
  computed : Option KeyValue

def valueTypeName : ValueType → List Char
  | .text => "text".toList
  | .number => "number".toList
  | .boolean => "boolean".toList
  | .date => "date".toList
  | .formula => "formula".toList
  | .error => "error".toList
  | .blank => "blank".toList

/-- json.loads, `_to_text`, `str.lower`, `_coerce_number_text`, and a FormulaEvaluator over the cells of
a file: what it answers to a call, none when it raises, after the calls before it. -/
structure Engine where
  loads : List Char → Option KeyValue
  toText : KeyValue → List Nat
  lower : List Nat → List Nat
  coerceNumberText : List Nat → Option Double
  evaluateCell : File → Nat → List FormulaCall → FormulaCall → Option KeyValue

def FetchedRow.before (a b : FetchedRow) : Bool :=
  a.row < b.row || (a.row = b.row && a.column ≤ b.column)

def fetchedCell (c : Cell) : FetchedRow :=
  ⟨c.row, c.column, valueTypeName c.valueType, some c.value, c.formula, some c.style, c.revision⟩

def fetchSparse (file : File) (sheet : Nat) (w : Window) : List FetchedRow :=
  ((file.cells.rows.filter fun c => c.sheet = sheet && w.covers c.row c.column).map
    fetchedCell).insertionSort fun a b => a.before b

section Fetch

variable {F : Type} [PyFloat F]

/-- `segment_map[col_idx]`, missing for a column with a segment that cannot be decoded. -/
def segmentCells (stored : StoredFile F) (sheet : Nat) (w : Window) (column : Nat) :
    Nat → Option ColumnCell :=
  let found := stored.segments.rows.filter fun s =>
    s.sheet = sheet && s.column = column && w.rowStart < s.rowEnd && s.rowStart < w.rowEnd
  match found.mapM fun s => decodeSegment s.compressedValues with
  | .error _ => fun _ => none
  | .ok decoded =>
    ((decoded.flatMap Decoded.cells).filter fun c => w.rowStart ≤ c.row && c.row < w.rowEnd).foldl
      put fun _ => none

def mergedCell (column : Nat) (c : ColumnCell) : FetchedRow :=
  ⟨c.row, column, c.entry.valueType, c.entry.value, c.entry.formula, c.entry.style, 0⟩

def fillers (stored : StoredFile F) (sheet : Nat) (w : Window) (sparse : List FetchedRow) :
    List FetchedRow :=
  w.columns.flatMap fun column => w.rows.filterMap fun row =>
    if sparse.any fun r => r.row = row && r.column = column then none
    else (segmentCells stored sheet w column row).map (mergedCell column)

inductive Path where
  | solo | session

def fetch (path : Path) (stored : StoredFile F) (sheet : Nat) (w : Window) : List FetchedRow :=
  let sparse := fetchSparse stored.file sheet w
  match path with
  | .solo => sparse
  | .session => (sparse ++ fillers stored sheet w sparse).insertionSort fun a b => a.before b

end Fetch

/-- `value_type == "formula" and formula`. -/
def FetchedRow.call (r : FetchedRow) : Option FormulaCall :=
  if r.valueType = "formula".toList then
    match r.formula with
    | some (c :: formula) => some ⟨r.row, r.column, c :: formula⟩
    | _ => none
  else none

inductive Operator where
  | eq | neq | gt | gte | lt | lte | contains | not_contains | is_empty | is_not_empty
  deriving DecidableEq

/-- A criterion as it is sent: none where `int(column)` raises, and for an unknown operator. -/
structure RawCriterion where
  column : Option Int
  operator : Option Operator
  value : KeyValue

structure Criterion where
  column : Nat
  operator : Operator
  value : KeyValue

def normalizeFilters (filters : List RawCriterion) : List Criterion :=
  (filters.take 50).filterMap fun criterion =>
    match criterion.column, criterion.operator with
    | some column, some operator =>
      if column < 0 ∨ 16384 < column then none else some ⟨column.toNat, operator, criterion.value⟩
    | _, _ => none

def isError : KeyValue → Bool
  | .str codes => Formula.ERROR_CODES.any fun code => code.map Char.toNat = codes
  | _ => false

def isNone : KeyValue → Bool
  | .blank => true
  | _ => false

/-- `value is None or value == ""` -/
def isEmpty : KeyValue → Bool
  | .blank => true
  | .str [] => true
  | _ => false

def filterCellValue (cell : Option ViewCell) : KeyValue :=
  match cell with
  | none => .blank
  | some c =>
    if c.valueType = "formula".toList then
      match c.computed with
      | none => .blank
      | some computed => if isError computed then .blank else computed
    else c.value

section Filters

variable (engine : Engine)

def decode : Option (List Char) → KeyValue
  | none => .blank
  | some [] => .blank
  | some text => (engine.loads text).getD .blank

def filterNumber : KeyValue → Except Failure (Option Double)
  | .bool b => .ok (some (.finite (if b then 1 else 0)))
  | .int n => (found (Double.ofInt n) .raised).map some
  | .float x => .ok (some x)
  | .str codes => .ok (engine.coerceNumberText codes)
  | _ => .ok none

def foldedText (v : KeyValue) : List Nat := engine.lower (engine.toText v)

def matchesFilter (value : KeyValue) (operator : Operator) (target : KeyValue) :
    Except Failure Bool :=
  let needle := if isNone target then [] else foldedText engine target
  let haystack := if isNone value then [] else foldedText engine value
  match operator with
  | .is_empty => .ok (isEmpty value)
  | .is_not_empty => .ok !isEmpty value
  | .contains => .ok (!isNone value && decide (needle <:+: haystack))
  | .not_contains => .ok !(!isNone value && decide (needle <:+: haystack))
  | operator =>
    if isNone value then .ok false
    else do
      let number ← filterNumber engine value
      let targetNumber ← filterNumber engine target
      match operator, number, targetNumber with
      | .eq, some x, some y => return x.eq y
      | .neq, some x, some y => return !x.eq y
      | .eq, _, _ => return foldedText engine value = foldedText engine target
      | .neq, _, _ => return foldedText engine value ≠ foldedText engine target
      | .gt, some x, some y => return y.lt x
      | .gte, some x, some y => return y.lt x || x.eq y
      | .lt, some x, some y => return x.lt y
      | .lte, some x, some y => return x.lt y || x.eq y
      | _, _, _ => return false

def passes (filters : List Criterion) (value : Nat → KeyValue) : Except Failure Bool :=
  match filters with
  | [] => .ok true
  | criterion :: rest => do
    if ← matchesFilter engine (value criterion.column) criterion.operator criterion.value then
      passes rest value
    else return false

def rowsOf (cells : List ViewCell) : List Nat :=
  (cells.map ViewCell.row).eraseDups.insertionSort (· ≤ ·)

def hiddenRows (filters : List Criterion) (cells : List ViewCell) : Except Failure (List Nat) :=
  if filters = [] then .ok []
  else do
    let verdicts ← (rowsOf cells).mapM fun row => do
      let rowCells := cells.filter fun c => c.row = row
      let visible ← passes engine filters fun column =>
        filterCellValue (rowCells.find? fun c => c.column = column)
      return (row, visible)
    return (verdicts.filter fun v => !v.2).map Prod.fst

def viewCells (file : File) (sheet : Nat) (before : List FormulaCall) :
    List FetchedRow → Except Failure (List ViewCell)
  | [] => .ok []
  | r :: rows => do
    let cell := ViewCell.mk r.row r.column r.valueType (decode engine r.value) r.formula
      (decode engine r.style) r.revision
    match r.call with
    | none =>
      let rest ← viewCells file sheet before rows
      return cell none :: rest
    | some call =>
      let computed ← found (engine.evaluateCell file sheet before call) .raised
      let rest ← viewCells file sheet (before ++ [call]) rows
      return cell (some computed) :: rest

end Filters

structure View where
  rowCount : Nat
  columnCount : Nat
  hasMore : Bool
  cells : List ViewCell
  hiddenRows : List Nat
  filters : List Criterion

def used (file : File) (sheet : Nat) (index : Cell → Nat) : Nat :=
  (((file.cells.rows.filter fun c => c.sheet = sheet).map fun c => index c + 1).max?).getD 0

def readViewport {F : Type} [PyFloat F] (engine : Engine) (path : Path) (stored : StoredFile F)
    (sheet : Nat) (w : Window) (filters : List RawCriterion) : Except Failure View := do
  ensure (w.rowStart < w.rowEnd ∧ w.columnStart < w.columnEnd) .invalidBounds
  ensure ((w.rowEnd - w.rowStart) * (w.columnEnd - w.columnStart) ≤ MAX_VIEWPORT_CELLS) .tooLarge
  ensure (stored.file.hasSheet sheet = true) .sheetNotFound
  let cells ← viewCells engine stored.file sheet [] (fetch path stored sheet w)
  let hidden ← hiddenRows engine (normalizeFilters filters) cells
  let rowCount := used stored.file sheet Cell.row
  let columnCount := used stored.file sheet Cell.column
  return ⟨rowCount, columnCount, w.rowEnd < rowCount || w.columnEnd < columnCount, cells, hidden,
    normalizeFilters filters⟩

section Verdicts

variable {F : Type} [PyFloat F] {engine : Engine} {file : File} {sheet row : Nat}
  {column : Nat} {rows : List FetchedRow} {cells : List ViewCell} {before : List FormulaCall}

def FetchedRow.at (row column : Nat) (r : FetchedRow) : Bool := r.row = row && r.column = column

/-- The value of a column in a row of a window, a blank where the window has no cell of it. -/
def shownIn (engine : Engine) (file : File) (sheet : Nat) (before : List FormulaCall)
    (rows : List FetchedRow) (row column : Nat) : KeyValue :=
  match rows.find? (FetchedRow.at row column) with
  | none => .blank
  | some r =>
    if r.valueType = "formula".toList then
      match r.call with
      | none => .blank
      | some call =>
        let earlier := (rows.takeWhile fun q => !q.at row column).filterMap FetchedRow.call
        match engine.evaluateCell file sheet (before ++ earlier) call with
        | none => .blank
        | some computed => if isError computed then .blank else computed
    else decode engine r.value

/-- The row has no cell in the window, or it meets the criteria there. -/
def Kept (engine : Engine) (path : Path) (stored : StoredFile F) (sheet : Nat) (w : Window)
    (filters : List RawCriterion) (row : Nat) : Prop :=
  (∀ r ∈ fetch path stored sheet w, r.row ≠ row) ∨
    passes engine (normalizeFilters filters)
      (shownIn engine stored.file sheet [] (fetch path stored sheet w) row) = .ok true

theorem viewCells_rows (done : viewCells engine file sheet before rows = .ok cells) :
    cells.map ViewCell.row = rows.map FetchedRow.row := by
  induction rows generalizing before cells with
  | nil =>
    cases done
    rfl
  | cons r rows ih =>
    rw [viewCells] at done
    split at done
    · obtain ⟨rest, others, done⟩ := returned_bind done
      cases done
      rw [List.map_cons, List.map_cons, ih others]
    · obtain ⟨computed, _, done⟩ := found_bind_eq_ok.mp done
      obtain ⟨rest, others, done⟩ := returned_bind done
      cases done
      rw [List.map_cons, List.map_cons, ih others]

theorem shownIn_here {r : FetchedRow} (here : r.at row column = true) :
    shownIn engine file sheet before (r :: rows) row column =
      if r.valueType = "formula".toList then
        match r.call with
        | none => .blank
        | some call =>
          match engine.evaluateCell file sheet before call with
          | none => .blank
          | some computed => if isError computed then .blank else computed
      else decode engine r.value := by
  simp only [shownIn, List.find?_cons, here, List.takeWhile_cons, Bool.not_true, Bool.false_eq_true,
    if_false, List.filterMap_nil, List.append_nil]

theorem shownIn_there {r : FetchedRow} (there : r.at row column = false) :
    shownIn engine file sheet before (r :: rows) row column =
      shownIn engine file sheet (before ++ r.call.toList) rows row column := by
  have calls : (((r :: rows).takeWhile fun q => !q.at row column).filterMap FetchedRow.call) =
      r.call.toList ++ (rows.takeWhile fun q => !q.at row column).filterMap FetchedRow.call := by
    rw [List.takeWhile_cons, there]
    cases call : r.call <;> simp [call]
  simp only [shownIn, List.find?_cons, there, calls, List.append_assoc]

/-- A filter tests the value that the window shows. -/
theorem filterCellValue_viewCells (done : viewCells engine file sheet before rows = .ok cells)
    (row column : Nat) :
    filterCellValue ((cells.filter fun c => c.row = row).find? fun c => c.column = column) =
      shownIn engine file sheet before rows row column := by
  rw [List.find?_filter]
  induction rows generalizing before cells with
  | nil =>
    cases done
    rfl
  | cons r rows ih =>
    have head : decide (decide (r.row = row) = true ∧ decide (r.column = column) = true) =
        r.at row column := by
      simp [FetchedRow.at]
    rw [viewCells] at done
    cases call : r.call with
    | none =>
      rw [call] at done
      obtain ⟨rest, others, done⟩ := returned_bind done
      cases done
      rw [List.find?_cons]
      cases here : r.at row column with
      | true =>
        rw [shownIn_here here, call]
        simp only [head, here]
        rfl
      | false =>
        rw [shownIn_there here, call, Option.toList_none, List.append_nil, ← ih others]
        simp only [head, here]
    | some k =>
      rw [call] at done
      obtain ⟨computed, evaluated, done⟩ := found_bind_eq_ok.mp done
      obtain ⟨rest, others, done⟩ := returned_bind done
      cases done
      rw [List.find?_cons]
      cases here : r.at row column with
      | true =>
        rw [shownIn_here here, call]
        simp only [head, here, evaluated]
        rfl
      | false =>
        rw [shownIn_there here, call, Option.toList_some, ← ih others]
        simp only [head, here]

theorem mem_rowsOf : row ∈ rowsOf cells ↔ ∃ c ∈ cells, c.row = row := by
  rw [rowsOf, (List.perm_insertionSort _ _).mem_iff, List.mem_eraseDups, List.mem_map]

variable (engine) in
def verdict (filters : List Criterion) (cells : List ViewCell) (row : Nat) : Except Failure Bool :=
  passes engine filters fun column =>
    filterCellValue ((cells.filter fun c => c.row = row).find? fun c => c.column = column)

theorem mem_hiddenRows (row : Nat) {filters : List Criterion} {hidden : List Nat}
    (done : hiddenRows engine filters cells = .ok hidden) :
    (row ∈ hidden ↔ (∃ c ∈ cells, c.row = row) ∧ verdict engine filters cells row = .ok false) ∧
      ((∃ c ∈ cells, c.row = row) → ∃ visible, verdict engine filters cells row = .ok visible) := by
  unfold hiddenRows at done
  split at done
  · rename_i none
    cases done
    subst none
    refine ⟨iff_of_false List.not_mem_nil fun refused => ?_, fun _ => ⟨true, rfl⟩⟩
    cases refused.2
  obtain ⟨verdicts, judged, done⟩ := returned_bind done
  cases done
  replace judged := mapM_eq_ok.mp judged
  have listed : ∀ v, v ∈ verdicts ↔ v.1 ∈ rowsOf cells ∧
      verdict engine filters cells v.1 = .ok v.2 := by
    intro v
    have mapped : v ∈ verdicts ↔ Except.ok v ∈ verdicts.map (fun v => (Except.ok v : Except Failure _)) := by simp
    rw [mapped, ← judged, List.mem_map]
    constructor
    · rintro ⟨r, member, result⟩
      obtain ⟨shown, passed, result⟩ := returned_bind result
      cases result
      exact ⟨member, passed⟩
    · rintro ⟨member, passed⟩
      refine ⟨v.1, member, ?_⟩
      show (verdict engine filters cells v.1 >>= _) = _
      rw [passed]
      rfl
  rw [← mem_rowsOf]
  constructor
  · simp only [List.mem_map, List.mem_filter, listed]
    constructor
    · rintro ⟨v, ⟨known, hides⟩, rfl⟩
      obtain ⟨r, visible⟩ := v
      cases visible with
      | true => cases hides
      | false => exact known
    · intro refused
      exact ⟨(row, false), ⟨refused, rfl⟩, rfl⟩
  · intro member
    have result := List.mem_map_of_mem (f := fun r => do
      let visible ← verdict engine filters cells r
      return (r, visible)) member
    obtain ⟨v, _, same⟩ := List.mem_map.mp (judged ▸ result)
    obtain ⟨visible, passed, _⟩ := returned_bind same.symm
    exact ⟨visible, passed⟩

end Verdicts

theorem sorted_fetchSparse (file : File) (sheet : Nat) (w : Window) :
    (fetchSparse file sheet w).Pairwise fun a b => a.before b = true := by
  have total : Std.Total fun a b : FetchedRow => a.before b = true := by
    constructor
    intro a b
    simp only [FetchedRow.before, Bool.or_eq_true, Bool.and_eq_true, decide_eq_true_eq]
    omega
  have trans : IsTrans FetchedRow fun a b => a.before b = true := by
    constructor
    intro a b c
    simp only [FetchedRow.before, Bool.or_eq_true, Bool.and_eq_true, decide_eq_true_eq]
    omega
  exact List.pairwise_insertionSort _ _

theorem readViewport_session {F : Type} [PyFloat F] {engine : Engine} {stored : StoredFile F}
    (bare : stored.segments.rows = []) (sheet : Nat) (w : Window) (filters : List RawCriterion) :
    readViewport engine .session stored sheet w filters =
      readViewport engine .solo stored sheet w filters := by
  have no_cells : ∀ column row, segmentCells stored sheet w column row = none := by
    intro column row
    simp only [segmentCells, bare]
    rfl
  have no_fillers : fillers stored sheet w (fetchSparse stored.file sheet w) = [] := by
    simp [fillers, no_cells]
  have same : fetch .session stored sheet w = fetch .solo stored sheet w := by
    show ((_ ++ fillers stored sheet w _).insertionSort _) = fetchSparse stored.file sheet w
    rw [no_fillers, List.append_nil]
    exact (sorted_fetchSparse stored.file sheet w).insertionSort_eq
  unfold readViewport
  rw [same]

section Windows

variable {F : Type} [PyFloat F] {engine : Engine} {path path' : Path} {stored : StoredFile F}
  {sheet row : Nat} {w w' : Window} {filters : List RawCriterion} {view view' : View}

theorem mem_hidden (done : readViewport engine path stored sheet w filters = .ok view) :
    row ∈ view.hiddenRows ↔ ¬ Kept engine path stored sheet w filters row := by
  simp only [readViewport, ensure_bind_eq_ok] at done
  obtain ⟨_, _, _, done⟩ := done
  obtain ⟨cells, computed, done⟩ := returned_bind done
  obtain ⟨hidden, filtered, done⟩ := returned_bind done
  cases done
  obtain ⟨hides, judges⟩ := mem_hiddenRows row filtered
  have occupied : (∃ c ∈ cells, c.row = row) ↔
      ∃ r ∈ fetch path stored sheet w, r.row = row := by
    rw [← List.mem_map, viewCells_rows computed, List.mem_map]
  have shown : verdict engine (normalizeFilters filters) cells row =
      passes engine (normalizeFilters filters)
        (shownIn engine stored.file sheet [] (fetch path stored sheet w) row) := by
    unfold verdict
    congr 1
    funext column
    exact filterCellValue_viewCells computed row column
  rw [occupied, shown] at hides judges
  rw [hides, Kept, not_or]
  have some_cell : (∃ r ∈ fetch path stored sheet w, r.row = row) ↔
      ¬ ∀ r ∈ fetch path stored sheet w, r.row ≠ row := by simp
  rw [← some_cell]
  refine and_congr_right fun cell => ?_
  obtain ⟨visible, passed⟩ := judges cell
  cases visible <;> simp [passed]

end Windows

def intAt (column : Nat) (digit : Char) : Cell :=
  ⟨1, 0, column, .number, [digit], none, jsonNull, 0, 0⟩

def plainEngine : Engine where
  loads
    | [digit] => if digit.isDigit then some (.int (digit.toNat - 48)) else none
    | _ => none
  toText _ := []
  lower codes := codes
  coerceNumberText _ := none
  evaluateCell _ _ _ _ := none

def sparseRow : StoredFile (Fin 10) :=
  ⟨(ledger ⟨[intAt 0 '1', intAt 5 '2'], by decide⟩ []).file, .empty⟩

def fifthFilled : List RawCriterion := [⟨some 5, some .is_not_empty, .blank⟩]

end Plexichat.Sum.Viewport
