import Plexichat.Library.Transition
import Plexichat.Sum.Viewport

/-! The column segments of a workbook through its operations: the packing of a promoted column, the
segments that a written cell or a column shift touches, and what a session reads of them. -/
namespace Plexichat.Sum.Viewport

open Checks Segments Transition

/-- An entry that is to be packed: a dict, or the sqlite3.Row of a SELECT, which has no `get`. -/
inductive Record where
  | dict (cell : ColumnCell)
  | row (cell : ColumnCell)

inductive PackFailure where
  /-- AttributeError -/
  | attribute
  | codec (failure : Segments.Failure)

def Record.get : Record → Except PackFailure ColumnCell
  | .dict cell => .ok cell
  | .row _ => .error .attribute

def columnCell (c : Cell) : ColumnCell :=
  ⟨c.row, ⟨valueTypeName c.valueType, some c.value, c.formula, some c.style⟩⟩

section Segmented

variable {F : Type} [PyFloat F]

/-- `pack_column`, which asks each entry for its row first. -/
def packEntries (entries : List Record) : Except PackFailure (List (List Char × Segment F)) := do
  let cells ← entries.mapM Record.get
  (packColumn cells).mapError .codec

abbrev SegmentTable (F : Type) := Table (SegmentRow F) SegmentRow.key

/-- INSERT OR REPLACE -/
def replaceSegment (t : SegmentTable F) (s : SegmentRow F) : SegmentTable F :=
  ((t.delete fun q => q.key = s.key).insert s).getD t

/-- The segments are stored up to the first that cannot be decoded. -/
def storeSegments (sheet column : Nat) : List (List Char × Segment F) → SegmentTable F → SegmentTable F
  | [], t => t
  | (id, segment) :: rest, t =>
    match decodeSegment segment with
    | .error _ => t
    | .ok decoded => storeSegments sheet column rest
        (replaceSegment t ⟨sheet, column, id, decoded.rowStart, decoded.rowEnd, segment⟩)

/-- The entries that `_promote_indexes` selects of a column. -/
def columnEntries (file : File) (sheet column : Nat) : List Record :=
  (file.cells.rows.filter fun c => c.sheet = sheet && c.column = column && c.valueType ≠ .blank).map
    fun c => .row (columnCell c)

def packSegments (file : File) (sheet column : Nat) (t : SegmentTable F) : SegmentTable F :=
  let entries := columnEntries file sheet column
  if segmentSize ≤ entries.length then
    match packEntries entries with
    | .error _ => t
    | .ok segments => storeSegments sheet column segments t
  else t

/-- `_invalidate_segment` for each written cell. -/
def invalidateSegments (sheet : Nat) (cells : List NormalizedCell) (t : SegmentTable F) :
    SegmentTable F :=
  t.delete fun s => s.sheet = sheet &&
    cells.any fun c => s.column = c.column && s.rowStart ≤ c.row && c.row < s.rowEnd

/-- The segments go with their columns; a shift of rows leaves them. -/
def shiftSegments (b : Band) (t : SegmentTable F) : Option (SegmentTable F) :=
  match b.axis with
  | .row => some t
  | .column =>
    let kept := if b.insert then t else t.delete fun s =>
      s.sheet = b.sheet && b.position ≤ s.column && s.column < b.position + b.count
    kept.rewrite fun s => if s.sheet = b.sheet then { s with column := b.shift s.column } else s

structure State (F : Type) where
  document : Document
  segments : SegmentTable F

def State.stored (s : State F) : StoredFile F := ⟨s.document.file, s.segments⟩

def segmentsAfter (call : Call) (r : Request) (s : State F) : Except Error (SegmentTable F) :=
  if (s.document.file.operations.find call.operationId).isSome then .ok s.segments
  else if r.type.structural then do
    let b ← anchorBand r.type r.sheet r.cells
    updated (shiftSegments b s.segments)
  else do
    let cells ← normalizeCells r.type r.cells
    return invalidateSegments r.sheet cells s.segments

inductive Step where
  | operation (call : Call) (r : Request)
  | sort (call : Call) (s : SortRange)
  | pack (sheet column : Nat)

variable (validates : File → Nat → List NormalizedCell → Bool)
  (computed : File → Nat → Nat → Nat → Computed)

def perform (s : State F) : Step → Except Error (State F)
  | .operation call r => do
    let document ← applyToDocument validates call r s.document
    let segments ← segmentsAfter call r s
    return ⟨document, segments⟩
  | .sort call range => do
    let document ← sortRange computed call range s.document
    return ⟨document, s.segments⟩
  | .pack sheet column =>
    .ok ⟨s.document, packSegments s.document.file sheet column s.segments⟩

def step (s : State F) (a : Step) : Option (State F) := (perform validates computed s a).toOption

def Created (s : State F) : Prop := s.segments.rows = []

end Segmented

section Reached

variable {F : Type} [PyFloat F] {validates : File → Nat → List NormalizedCell → Bool}
  {computed : File → Nat → Nat → Nat → Computed} {s t : State F}

theorem packEntries_rows {cells : List ColumnCell} (filled : cells ≠ []) :
    packEntries (F := F) (cells.map .row) = .error .attribute := by
  cases cells with
  | nil => exact absurd rfl filled
  | cons c cells => rfl

theorem packSegments_eq (file : File) (sheet column : Nat) (table : SegmentTable F) :
    packSegments file sheet column table = table := by
  unfold packSegments
  dsimp only
  split
  · rename_i enough
    have entries : columnEntries file sheet column = ((file.cells.rows.filter fun c =>
        c.sheet = sheet && c.column = column && c.valueType ≠ .blank).map columnCell).map .row := by
      rw [List.map_map]
      rfl
    have filled : (file.cells.rows.filter fun c =>
        c.sheet = sheet && c.column = column && c.valueType ≠ .blank).map columnCell ≠ [] := by
      intro none
      rw [entries, none] at enough
      cases enough
    rw [entries, packEntries_rows filled]
  · rfl

omit [PyFloat F] in
theorem segmentsAfter_bare {call : Call} {r : Request} (bare : s.segments.rows = [])
    {table : SegmentTable F} (done : segmentsAfter call r s = .ok table) : table.rows = [] := by
  unfold segmentsAfter at done
  split at done
  · cases done
    exact bare
  · split at done
    · obtain ⟨b, _, done⟩ := returned_bind done
      replace done := updated_eq_ok.mp done
      unfold shiftSegments at done
      split at done
      · cases done
        exact bare
      · rw [Table.rewrite_eq_some done]
        split <;> simp [Table.delete, bare]
    · obtain ⟨cells, _, done⟩ := returned_bind done
      cases done
      simp [invalidateSegments, Table.delete, bare]

theorem created_step {a : Step} (bare : Created s) (next : step validates computed s a = some t) :
    Created t := by
  replace next : perform validates computed s a = .ok t := toOption_eq_some next
  cases a with
  | operation call r =>
    obtain ⟨document, _, next⟩ := returned_bind next
    obtain ⟨segments, after, next⟩ := returned_bind next
    cases next
    exact segmentsAfter_bare bare after
  | sort call range =>
    obtain ⟨document, _, next⟩ := returned_bind next
    cases next
    exact bare
  | pack sheet column =>
    cases next
    show (packSegments _ sheet column s.segments).rows = []
    rw [packSegments_eq]
    exact bare

/-- A session reads of a file what is read of it without one. -/
theorem session_reads_stored (reached : Reachable (step validates computed) Created s)
    (engine : Engine) (sheet : Nat) (w : Window) (filters : List RawCriterion) :
    readViewport engine .session s.stored sheet w filters =
      readViewport engine .solo s.stored sheet w filters := by
  have bare : s.stored.segments.rows = [] :=
    guarded_invariant (fun _ => id) (fun _ _ _ bare _ => created_step bare) reached
  exact readViewport_session bare sheet w filters

end Reached

def created : State (Fin 10) := ⟨ledger twoAboveOne [], .empty⟩

def packedRun : List Step :=
  [.operation ⟨1, ['a'], 0, 0⟩ ⟨1, .setCell, [⟨some 0, some 0, none, some .number, ['3'], none, jsonNull⟩]⟩,
    .operation ⟨1, ['b'], 1, 0⟩ ⟨1, .insertColumns, [⟨some 0, some 0, some 1, none, [], none, []⟩]⟩,
    .pack 1 1]

theorem session_reads_packed_run : ∃ s, run (step anyCells digits) created packedRun = some s ∧
    readViewport plainEngine .session s.stored 1 ⟨0, 2, 0, 2⟩ [] =
      readViewport plainEngine .solo s.stored 1 ⟨0, 2, 0, 2⟩ [] := by
  obtain ⟨s, ran⟩ : ∃ s, run (step anyCells digits) created packedRun = some s :=
    Option.isSome_iff_exists.mp (by decide +kernel)
  have start : Created created := rfl
  have reached : Reachable (step anyCells digits) Created s := reachable_of_run packedRun start ran
  exact ⟨s, ran, session_reads_stored reached plainEngine 1 ⟨0, 2, 0, 2⟩ []⟩

end Plexichat.Sum.Viewport
