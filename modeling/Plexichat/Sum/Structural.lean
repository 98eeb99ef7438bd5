import Mathlib.Tactic.Common
import Plexichat.Sum.Workbook

/-! suite/sum/manager_operations.py: insertion and deletion of rows and columns, and the
protected ranges (sum_range_permissions) that are to move with their cells. -/
namespace Plexichat.Sum

/-- A row of sum_range_permissions. The ends are exclusive; set_range_permission refuses an
empty range. -/
structure RangePermission where
  sheet : Nat
  rowStart : Nat
  rowEnd : Nat
  columnStart : Nat
  columnEnd : Nat
  readOnly : Bool
  rowsOrdered : rowStart < rowEnd
  columnsOrdered : columnStart < columnEnd

namespace RangePermission

def start (r : RangePermission) : Axis → Nat
  | .row => r.rowStart
  | .column => r.columnStart

def stop (r : RangePermission) : Axis → Nat
  | .row => r.rowEnd
  | .column => r.columnEnd

theorem start_lt_stop (r : RangePermission) (a : Axis) : r.start a < r.stop a := by
  cases a with
  | row => exact r.rowsOrdered
  | column => exact r.columnsOrdered

def move (r : RangePermission) (f : Nat → Nat) :
    (a : Axis) → f (r.start a) < f (r.stop a) → RangePermission
  | .row, ordered => { r with
      rowStart := f r.rowStart, rowEnd := f r.rowEnd, rowsOrdered := ordered }
  | .column, ordered => { r with
      columnStart := f r.columnStart, columnEnd := f r.columnEnd, columnsOrdered := ordered }

def covers (r : RangePermission) (sheet row column : Nat) : Bool :=
  r.readOnly && decide (r.sheet = sheet) && decide (r.rowStart ≤ row ∧ row < r.rowEnd) &&
    decide (r.columnStart ≤ column ∧ column < r.columnEnd)

def overlaps (r : RangePermission) (b : Band) : Bool :=
  decide (r.start b.axis < b.position + b.count) && decide (b.position < r.stop b.axis)

end RangePermission

structure Document where
  ownerId : Nat
  revision : Nat
  file : File
  ranges : List RangePermission

def Document.protects (d : Document) (sheet row column : Nat) : Bool :=
  d.ranges.any fun r => r.covers sheet row column

def checkStructuralPermission (d : Document) (b : Band) (user : Nat) : Except Error Unit :=
  if d.ownerId = user then .ok ()
  else if b.insert then .ok ()
  else if d.ranges.any fun r => r.readOnly && r.sheet = b.sheet && r.overlaps b then
    .error (.permission "Cannot delete cells inside a protected range")
  else .ok ()

def RangePermission.shift (b : Band) (r : RangePermission) : RangePermission :=
  if b.insert then
    if r.sheet = b.sheet ∧ b.position ≤ r.start b.axis then
      r.move (· + b.count) b.axis (Nat.add_lt_add_right (r.start_lt_stop b.axis) b.count)
    else r
  else
    if h : r.sheet = b.sheet ∧ b.position + b.count ≤ r.start b.axis then
      r.move (· - b.count) b.axis (by have := r.start_lt_stop b.axis; omega)
    else r

def shiftRangePermissions (ranges : List RangePermission) (b : Band) : List RangePermission :=
  (ranges.filter fun r => b.insert || !(r.sheet = b.sheet && r.overlaps b)).map
    (RangePermission.shift b)

/-- The fields of a cell of a request: none where `int` raises or the type is unknown. -/
structure RawCell where
  row : Option Int
  column : Option Int
  count : Option Int
  valueType : Option ValueType
  value : Json
  formula : Option (List Char)
  style : Json

def OperationType.structural : OperationType → Bool
  | .insertRows | .deleteRows | .insertColumns | .deleteColumns => true
  | _ => false

def OperationType.inserts : OperationType → Bool
  | .insertRows | .insertColumns => true
  | _ => false

def OperationType.axis : OperationType → Axis
  | .insertRows | .deleteRows => .row
  | _ => .column

def maxStructuralChange : Int := 10000

def anchorBand (type : OperationType) (sheet : Nat) : List RawCell → Except Error Band
  | [] => .error (.validation "Structural operation needs an anchor cell")
  | anchor :: _ =>
    match anchor.count, type.axis, anchor.row, anchor.column with
    | none, _, _, _ => .error (.validation "Structural operation needs a numeric count")
    | some _, .row, none, _ => .error (.validation "Structural operation needs a numeric row anchor")
    | some _, .column, _, none =>
      .error (.validation "Structural operation needs a numeric column anchor")
    | some count, .row, some position, _ | some count, .column, _, some position =>
      if position < 0 then .error (.validation "Anchor index must be non-negative")
      else if count < 1 ∨ maxStructuralChange < count then
        .error (.validation "count must be between 1 and 10000")
      else .ok ⟨sheet, type.axis, position.toNat, count.toNat, type.inserts⟩

/-- `_apply_structural_operation`: the new file is published over the old one, then the
protected ranges move. -/
def applyStructural (user : Nat) (b : Band) (row : OperationRow) (d : Document) :
    Except Error Document := do
  checkStructuralPermission d b user
  if d.file.hasSheet b.sheet then
    let file ← shiftAxis d.file b
    let file ← updated (insertOperation file row)
    return { d with
      revision := d.revision + 1, file, ranges := shiftRangePermissions d.ranges b }
  else throw (.notFound "Sheet not found")

/-! Where a range goes and where its cells go. -/

def Axis.other : Axis → Axis
  | .row => .column
  | .column => .row

def RangePermission.spans (r : RangePermission) (a : Axis) (i : Nat) : Prop :=
  r.start a ≤ i ∧ i < r.stop a

def RangePermission.Straddles (r : RangePermission) (b : Band) : Prop :=
  r.sheet = b.sheet ∧
    if b.insert then r.start b.axis < b.position ∧ b.position < r.stop b.axis
    else r.overlaps b = true

def RangePermission.coversCell (r : RangePermission) (c : Cell) : Bool :=
  r.covers c.sheet c.row c.column

def Cell.Survives (b : Band) (c : Cell) : Prop :=
  c.sheet = b.sheet → b.deletes (c.index b.axis) = false

namespace RangePermission

variable {r : RangePermission} {b : Band} {c : Cell}

theorem coversCell_iff (a : Axis) : r.coversCell c = true ↔
    r.readOnly = true ∧ r.sheet = c.sheet ∧ r.spans a (c.index a) ∧
      r.spans a.other (c.index a.other) := by
  have spelled : r.coversCell c = true ↔ r.readOnly = true ∧ r.sheet = c.sheet ∧
      r.spans .row c.row ∧ r.spans .column c.column := by
    simp [coversCell, covers, spans, start, stop, and_assoc]
  rw [spelled]
  cases a with
  | row => rfl
  | column =>
    have swapped : r.spans .row c.row ∧ r.spans .column c.column ↔
        r.spans .column c.column ∧ r.spans .row c.row := and_comm
    exact and_congr_right fun _ => and_congr_right fun _ => swapped

theorem overlaps_iff : r.overlaps b = true ↔
    r.start b.axis < b.position + b.count ∧ b.position < r.stop b.axis := by
  simp [overlaps]

theorem move_spans (f : Nat → Nat) (a : Axis) (ordered) (i : Nat) :
    (r.move f a ordered).spans a i ↔ f (r.start a) ≤ i ∧ i < f (r.stop a) := by
  cases a with
  | row => rfl
  | column => rfl

theorem move_spans_other (f : Nat → Nat) (a : Axis) (ordered) (i : Nat) :
    (r.move f a ordered).spans a.other i ↔ r.spans a.other i := by
  cases a with
  | row => rfl
  | column => rfl

theorem move_sheet (f : Nat → Nat) (a : Axis) (ordered) :
    (r.move f a ordered).sheet = r.sheet ∧ (r.move f a ordered).readOnly = r.readOnly := by
  cases a with
  | row => exact ⟨rfl, rfl⟩
  | column => exact ⟨rfl, rfl⟩

theorem shift_sheet : (r.shift b).sheet = r.sheet ∧ (r.shift b).readOnly = r.readOnly := by
  unfold shift
  split
  · split
    · exact move_sheet _ _ _
    · exact ⟨rfl, rfl⟩
  · split
    · exact move_sheet _ _ _
    · exact ⟨rfl, rfl⟩

theorem shift_away (away : r.sheet ≠ b.sheet) : r.shift b = r := by
  unfold shift
  split
  · exact if_neg fun h => away h.1
  · exact dif_neg fun h => away h.1

theorem shift_spans_other (i : Nat) :
    (r.shift b).spans b.axis.other i ↔ r.spans b.axis.other i := by
  unfold shift
  split
  · split
    · exact move_spans_other _ _ _ i
    · rfl
  · split
    · exact move_spans_other _ _ _ i
    · rfl

/-- Along the axis, a range and the surviving indexes move alike. -/
theorem shift_spans_iff (same : r.sheet = b.sheet) (apart : ¬ r.Straddles b) {i : Nat}
    (kept : b.deletes i = false) : (r.shift b).spans b.axis (b.shift i) ↔ r.spans b.axis i := by
  have ordered := r.start_lt_stop b.axis
  have clear : ¬ if b.insert then r.start b.axis < b.position ∧ b.position < r.stop b.axis
      else r.overlaps b = true := fun h => apart ⟨same, h⟩
  unfold shift Band.shift
  cases inserts : b.insert with
  | true =>
    simp only [inserts, if_true] at clear ⊢
    by_cases after : b.position ≤ r.start b.axis
    · rw [if_pos ⟨same, after⟩, move_spans]
      unfold spans
      split <;> omega
    · rw [if_neg fun h => after h.2]
      unfold spans
      split <;> omega
  | false =>
    simp only [inserts, Bool.false_eq_true, if_false, overlaps_iff] at clear ⊢
    have outside : i < b.position ∨ b.position + b.count ≤ i := by
      simp only [Band.deletes, inserts, Bool.not_false, Bool.true_and, Bool.and_eq_false_iff,
        decide_eq_false_iff_not] at kept
      omega
    by_cases after : b.position + b.count ≤ r.start b.axis
    · rw [dif_pos ⟨same, after⟩, move_spans]
      unfold spans
      split <;> omega
    · rw [dif_neg fun h => after h.2]
      unfold spans
      split <;> omega

end RangePermission

theorem Cell.shift_away {b : Band} {c : Cell} (away : c.sheet ≠ b.sheet) : c.shift b = c :=
  if_neg away

theorem Cell.reindex_index (a : Axis) (f : Nat → Nat) (c : Cell) :
    (c.reindex a f).sheet = c.sheet ∧ (c.reindex a f).index a = f (c.index a) ∧
      (c.reindex a f).index a.other = c.index a.other := by
  cases a with
  | row => exact ⟨rfl, rfl, rfl⟩
  | column => exact ⟨rfl, rfl, rfl⟩

/-- A range that the change does not straddle covers the same surviving cells as before. -/
theorem coversCell_shift_iff {r : RangePermission} {b : Band} {c : Cell} (apart : ¬ r.Straddles b)
    (survives : c.Survives b) : (r.shift b).coversCell (c.shift b) = true ↔ r.coversCell c = true := by
  by_cases here : c.sheet = b.sheet
  · have moved : c.shift b = c.reindex b.axis b.shift := if_pos here
    obtain ⟨sheet, index, index_other⟩ := Cell.reindex_index b.axis b.shift c
    rw [moved, RangePermission.coversCell_iff b.axis, RangePermission.coversCell_iff b.axis, sheet,
      index, index_other, RangePermission.shift_spans_other, r.shift_sheet.1, r.shift_sheet.2]
    refine and_congr_right fun _ => and_congr_right fun on_sheet => and_congr_left fun _ => ?_
    exact RangePermission.shift_spans_iff (on_sheet.trans here) apart (survives here)
  · rw [Cell.shift_away here]
    by_cases on_sheet : r.sheet = b.sheet
    · have off : ∀ q : RangePermission, q.sheet = b.sheet → q.coversCell c ≠ true := by
        intro q same covers
        exact here (((q.coversCell_iff .row).mp covers).2.1.symm.trans same)
      exact iff_of_false (off _ (r.shift_sheet.1.trans on_sheet)) (off _ on_sheet)
    · rw [RangePermission.shift_away on_sheet]

def Document.protectsCell (d : Document) (c : Cell) : Bool := d.protects c.sheet c.row c.column

theorem protectsCell_iff {d : Document} {c : Cell} :
    d.protectsCell c = true ↔ ∃ r ∈ d.ranges, r.coversCell c = true := List.any_eq_true

theorem applyStructural_eq_ok {user : Nat} {b : Band} {row : OperationRow} {d d' : Document}
    (h : applyStructural user b row d = .ok d') : checkStructuralPermission d b user = .ok () ∧
      shiftCells d.file.cells b = .ok d'.file.cells ∧
      d'.ranges = shiftRangePermissions d.ranges b := by
  unfold applyStructural at h
  obtain ⟨⟨⟩, permitted, h⟩ := bind_eq_ok.mp h
  split at h
  · obtain ⟨shifted, shift, h⟩ := bind_eq_ok.mp h
    obtain ⟨file, logged, h⟩ := bind_eq_ok.mp h
    cases h
    obtain ⟨operations, _, rfl⟩ := Option.map_eq_some_iff.mp (updated_eq_ok.mp logged)
    have cells : shiftCells d.file.cells b = .ok shifted.cells := shiftAxis_cells shift
    exact ⟨permitted, cells, rfl⟩
  · cases h

theorem mem_shiftRangePermissions {ranges : List RangePermission} {b : Band} {q : RangePermission} :
    q ∈ shiftRangePermissions ranges b ↔
      ∃ r ∈ ranges, (b.insert = true ∨ ¬ r.Straddles b) ∧ r.shift b = q := by
  simp only [shiftRangePermissions, List.mem_map, List.mem_filter, and_assoc]
  refine exists_congr fun r => and_congr_right fun _ => and_congr_left fun _ => ?_
  cases inserts : b.insert with
  | true => simp
  | false => simp [RangePermission.Straddles, inserts, imp_iff_not_or]

/-- A cell in a range that the change does not straddle is in a read-only range where it goes
to. After a deletion a surviving cell is in one only if it was in such a range. -/
theorem protection_follows {user : Nat} {b : Band} {row : OperationRow} {d d' : Document}
    (done : applyStructural user b row d = .ok d') :
    (∀ c ∈ d.file.cells, c.Survives b →
      (∃ r ∈ d.ranges, r.coversCell c = true ∧ ¬ r.Straddles b) →
        c.shift b ∈ d'.file.cells ∧ d'.protectsCell (c.shift b) = true) ∧
    (b.insert = false → ∀ c ∈ d.file.cells, c.Survives b →
      d'.protectsCell (c.shift b) = true →
        ∃ r ∈ d.ranges, r.coversCell c = true ∧ ¬ r.Straddles b) := by
  obtain ⟨_, cells, ranges⟩ := applyStructural_eq_ok done
  constructor
  · rintro c member survives ⟨r, stored, covers, apart⟩
    refine ⟨(mem_shiftCells cells).mpr ⟨c, member, survives, rfl⟩, protectsCell_iff.mpr ?_⟩
    refine ⟨r.shift b, ?_, (coversCell_shift_iff apart survives).mpr covers⟩
    rw [ranges]
    exact mem_shiftRangePermissions.mpr ⟨r, stored, .inr apart, rfl⟩
  · intro deletes c _ survives covered
    obtain ⟨q, stored, covers⟩ := protectsCell_iff.mp covered
    rw [ranges] at stored
    obtain ⟨r, before, kept, rfl⟩ := mem_shiftRangePermissions.mp stored
    have apart : ¬ r.Straddles b := kept.resolve_left (Bool.eq_false_iff.mp deletes)
    exact ⟨r, before, (coversCell_shift_iff apart survives).mp covers, apart⟩

def ledger (cells : Table Cell Cell.key) (ranges : List RangePermission) : Document where
  ownerId := 1
  revision := 0
  file := {
    sheets := ⟨[⟨1, [], false⟩], by decide⟩
    cells
    rows := .empty
    columns := .empty
    statistics := .empty
    operations := .empty }
  ranges

def numberAt (row : Nat) (digit : Char) : Cell :=
  ⟨1, row, 0, .number, [digit], none, jsonNull, 0, 0⟩

def columnRange (rowStart rowEnd : Nat) (ordered : rowStart < rowEnd) : RangePermission :=
  ⟨1, rowStart, rowEnd, 0, 1, true, ordered, by decide⟩

def deleteRow (position : Nat) : Band := ⟨1, .row, position, 1, false⟩
def insertRow (position : Nat) : Band := ⟨1, .row, position, 1, true⟩

def logged (type : OperationType) (b : Band) : OperationRow :=
  ⟨['o'], 1, 0, 1, type, b.sheet, .anchor b.sheet b.position b.count b.axis, 0⟩

def oneCell (row : Nat) : Table Cell Cell.key := ⟨[numberAt row '7'], List.nodup_singleton _⟩

def rowsTwoAndThree : Document := ledger (oneCell 3) [columnRange 2 4 (by decide)]

theorem exists_of_isOk {ε α : Type} {x : Except ε α} (h : x.isOk = true) : ∃ a, x = .ok a := by
  cases x with
  | error e => cases h
  | ok a => exact ⟨a, rfl⟩

/-- Deleting the first row of a range removes the protection of the second. -/
theorem deletion_uncovers_the_rest : ¬ ∀ (user : Nat) (b : Band) (row : OperationRow)
    (d d' : Document), applyStructural user b row d = .ok d' → ∀ c ∈ d.file.cells, c.Survives b →
      d.protectsCell c = true → d'.protectsCell (c.shift b) = true := by
  intro law
  obtain ⟨d', done⟩ : ∃ d', applyStructural 1 (deleteRow 2) (logged .deleteRows (deleteRow 2))
      rowsTwoAndThree = .ok d' := exists_of_isOk (by decide)
  have covered := law _ _ _ _ _ done (numberAt 3 '7') List.mem_cons_self (fun _ => by decide)
    (by decide)
  obtain ⟨r, stored, _⟩ := protectsCell_iff.mp covered
  have uncovered : d'.ranges = [] := (applyStructural_eq_ok done).2.2
  rw [uncovered] at stored
  cases stored

/-- An insertion above the range: cell and range move down together. -/
theorem insertion_above_keeps_protection : ∃ d',
    applyStructural 1 (insertRow 1) (logged .insertRows (insertRow 1)) rowsTwoAndThree = .ok d' ∧
      numberAt 4 '7' ∈ d'.file.cells ∧ d'.protectsCell (numberAt 4 '7') = true := by
  obtain ⟨d', done⟩ : ∃ d', applyStructural 1 (insertRow 1) (logged .insertRows (insertRow 1))
      rowsTwoAndThree = .ok d' := exists_of_isOk (by decide)
  refine ⟨d', done, (protection_follows done).1 (numberAt 3 '7') List.mem_cons_self
    (fun _ => by decide) ⟨_, List.mem_cons_self, by decide, ?_⟩⟩
  intro straddles
  exact absurd straddles.2 (by decide)

end Plexichat.Sum
