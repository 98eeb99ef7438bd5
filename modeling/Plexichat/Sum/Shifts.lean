import Plexichat.Sum.Structural

/-! `_shift_axis` moves cells without loss, and deleting a band that was inserted brings back what
was there. An UPDATE moves the rows one after the other, each checked against all the others. -/
namespace Plexichat.Sum

def Band.removal (b : Band) : Band := { b with insert := false }

section Index

variable {b : Band} {i j : Nat}

theorem Band.deletes_iff : b.deletes i = true ↔
    b.insert = false ∧ b.position ≤ i ∧ i < b.position + b.count := by
  simp [Band.deletes, and_assoc]

theorem Band.shift_injective (hi : b.deletes i = false) (hj : b.deletes j = false)
    (same : b.shift i = b.shift j) : i = j := by
  rw [← Bool.not_eq_true, Band.deletes_iff] at hi hj
  unfold Band.shift at same
  cases inserts : b.insert with
  | true =>
    simp only [inserts, if_true] at same
    split at same <;> split at same <;> omega
  | false =>
    simp only [inserts, true_and, Bool.false_eq_true, if_false] at hi hj same
    split at same <;> split at same <;> omega

theorem Band.removal_shift (inserts : b.insert = true) (i : Nat) :
    b.removal.deletes (b.shift i) = false ∧ b.removal.shift (b.shift i) = i := by
  rw [← Bool.not_eq_true, Band.deletes_iff]
  simp only [Band.removal, Band.shift, inserts, if_true, Bool.false_eq_true, if_false, true_and]
  by_cases beyond : b.position ≤ i
  · rw [if_pos beyond, if_pos (by omega)]
    omega
  · rw [if_neg beyond, if_neg (by omega)]
    omega

end Index

/-- What `_shift_axis` does to a cell that stays: beyond the band its index moves by the count, and
everything else about it is as it was. -/
structure Cell.Moved (b : Band) (c q : Cell) : Prop where
  beyond : c.sheet = b.sheet → b.sourceBound ≤ c.index b.axis →
    if b.insert then q = c.reindex b.axis (· + b.count) else c = q.reindex b.axis (· + b.count)
  before : c.sheet ≠ b.sheet ∨ c.index b.axis < b.sourceBound → q = c

theorem Cell.reindex_congr {a : Axis} {f g : Nat → Nat} {c : Cell}
    (same : f (c.index a) = g (c.index a)) : c.reindex a f = c.reindex a g := by
  cases a with
  | row => exact congrArg (fun row => { c with row }) same
  | column => exact congrArg (fun column => { c with column }) same

theorem Cell.reindex_self {a : Axis} {f : Nat → Nat} {c : Cell} (same : f (c.index a) = c.index a) :
    c.reindex a f = c := by
  have unchanged : c.reindex a id = c := by cases a <;> rfl
  calc c.reindex a f = c.reindex a id := Cell.reindex_congr same
    _ = c := unchanged

theorem Cell.reindex_reindex (a : Axis) (f g : Nat → Nat) (c : Cell) :
    (c.reindex a f).reindex a g = c.reindex a (g ∘ f) := by
  cases a <;> rfl

theorem Cell.reindex_add_injective {a : Axis} {n : Nat} {c d : Cell}
    (same : c.reindex a (· + n) = d.reindex a (· + n)) : c = d := by
  have back (e : Cell) : (e.reindex a (· + n)).reindex a (· - n) = e := by
    rw [Cell.reindex_reindex]
    exact Cell.reindex_self (Nat.add_sub_cancel _ n)
  rw [← back c, same, back d]

theorem Cell.moved_shift (b : Band) (c : Cell) : c.Moved b (c.shift b) := by
  by_cases here : c.sheet = b.sheet
  · have moved : c.shift b = c.reindex b.axis b.shift := if_pos here
    rw [moved]
    constructor
    · intro _ beyond
      cases inserts : b.insert with
      | true =>
        rw [Band.sourceBound, inserts, if_pos rfl] at beyond
        rw [if_pos rfl]
        exact Cell.reindex_congr (by rw [Band.shift, inserts, if_pos rfl, if_pos beyond])
      | false =>
        rw [Band.sourceBound, inserts, if_neg Bool.false_ne_true] at beyond
        rw [if_neg Bool.false_ne_true, Cell.reindex_reindex]
        refine (Cell.reindex_self ?_).symm
        rw [Function.comp_apply, Band.shift, inserts, if_neg Bool.false_ne_true, if_pos beyond]
        omega
    · intro before
      have early := before.resolve_left (not_not_intro here)
      refine Cell.reindex_self ?_
      cases inserts : b.insert with
      | true =>
        rw [Band.sourceBound, inserts, if_pos rfl] at early
        rw [Band.shift, inserts, if_pos rfl, if_neg (by omega)]
      | false =>
        rw [Band.sourceBound, inserts, if_neg Bool.false_ne_true] at early
        rw [Band.shift, inserts, if_neg Bool.false_ne_true, if_neg (by omega)]
  · rw [Cell.shift_away here]
    exact ⟨fun same => absurd same here, fun _ => rfl⟩

theorem shiftCells_rows {t t' : Table Cell Cell.key} {b : Band} (ran : shiftCells t b = .ok t') :
    t'.rows = (t.rows.filter fun c => !(c.sheet = b.sheet && b.deletes (c.index b.axis))).map
      (Cell.shift b) := by
  unfold shiftCells at ran
  split at ran
  · cases ran
  · exact Table.rewrite_eq_some (updated_eq_ok.mp ran)

theorem Cell.survives_iff {b : Band} {c : Cell} : c.Survives b ↔
    (!(c.sheet = b.sheet && b.deletes (c.index b.axis))) = true := by
  simp [Cell.Survives, imp_iff_not_or]

theorem Cell.key_eq_iff (a : Axis) {c d : Cell} : c.key = d.key ↔
    c.sheet = d.sheet ∧ c.index a = d.index a ∧ c.index a.other = d.index a.other := by
  cases a with
  | row => simp [Cell.key, Cell.index, Axis.other]
  | column => simp [Cell.key, Cell.index, Axis.other, and_comm]

theorem Cell.shift_index {b : Band} {c : Cell} (here : c.sheet = b.sheet) :
    (c.shift b).sheet = b.sheet ∧ (c.shift b).index b.axis = b.shift (c.index b.axis) ∧
      (c.shift b).index b.axis.other = c.index b.axis.other := by
  obtain ⟨sheet, index, index_other⟩ := Cell.reindex_index b.axis b.shift c
  rw [Cell.shift, if_pos here]
  exact ⟨sheet.trans here, index, index_other⟩

theorem Cell.shift_injective {b : Band} {c d : Cell} (hc : c.Survives b) (hd : d.Survives b)
    (same : (c.shift b).key = (d.shift b).key) : c.key = d.key := by
  rw [Cell.key_eq_iff b.axis] at same ⊢
  by_cases here : c.sheet = b.sheet <;> by_cases there : d.sheet = b.sheet
  · obtain ⟨-, index_c, other_c⟩ := Cell.shift_index here
    obtain ⟨-, index_d, other_d⟩ := Cell.shift_index there
    rw [index_c, index_d, other_c, other_d] at same
    exact ⟨here.trans there.symm, Band.shift_injective (hc here) (hd there) same.2.1, same.2.2⟩
  · rw [(Cell.shift_index here).1, Cell.shift_away there] at same
    exact absurd same.1.symm there
  · rw [(Cell.shift_index there).1, Cell.shift_away here] at same
    exact absurd same.1 here
  · rwa [Cell.shift_away here, Cell.shift_away there] at same

theorem Cell.removal_shift {b : Band} (inserts : b.insert = true) (c : Cell) :
    (c.shift b).Survives b.removal ∧ (c.shift b).shift b.removal = c := by
  by_cases here : c.sheet = b.sheet
  · obtain ⟨sheet, index, -⟩ := Cell.shift_index here
    constructor
    · intro _
      exact index ▸ (Band.removal_shift inserts _).1
    · rw [Cell.shift, if_pos (show (c.shift b).sheet = b.removal.sheet from sheet), Cell.shift,
        if_pos here]
      refine (Cell.reindex_reindex b.axis b.shift b.removal.shift c).trans (Cell.reindex_self ?_)
      exact (Band.removal_shift inserts _).2
  · rw [Cell.shift_away here]
    exact ⟨fun same => absurd same here, Cell.shift_away here⟩

theorem shiftCells_removal {t t' t'' : Table Cell Cell.key} {b : Band} (inserts : b.insert = true)
    (forth : shiftCells t b = .ok t') (back : shiftCells t' b.removal = .ok t'') : t'' = t := by
  have all_kept : t'.rows = t.rows.map (Cell.shift b) := by
    rw [shiftCells_rows forth, List.filter_eq_self.mpr]
    intro c _
    exact Cell.survives_iff.mp fun _ => by simp [Band.deletes, inserts]
  have back_again : t''.rows = t.rows := by
    rw [shiftCells_rows back, List.filter_eq_self.mpr, all_kept, List.map_map]
    · exact (List.map_congr_left fun c _ => (Cell.removal_shift inserts c).2).trans (List.map_id _)
    · intro q member
      rw [all_kept] at member
      obtain ⟨c, _, rfl⟩ := List.mem_map.mp member
      exact Cell.survives_iff.mp (Cell.removal_shift inserts c).1
  exact Table.ext_rows back_again

section Entries

variable {t : Table AxisEntry AxisEntry.key} {b : Band} {key : Nat → StableKey}

theorem foldl_insertOrIgnore_rows (t : Table AxisEntry AxisEntry.key) (indexes : List Nat)
    (entry : Nat → AxisEntry) : ∃ added, (∀ e ∈ added, ∃ i ∈ indexes, e = entry i) ∧
      (indexes.foldl (fun t i => t.insertOrIgnore (entry i)) t).rows = t.rows ++ added := by
  induction indexes generalizing t with
  | nil => exact ⟨[], by simp, by simp⟩
  | cons i indexes ih =>
    obtain ⟨added, from_indexes, rows⟩ := ih (t.insertOrIgnore (entry i))
    rw [List.foldl_cons, rows]
    cases inserted : t.insert (entry i) with
    | none =>
      refine ⟨added, fun e member => ?_, by rw [Table.insertOrIgnore, inserted, Option.getD_none]⟩
      obtain ⟨j, later, rfl⟩ := from_indexes e member
      exact ⟨j, List.mem_cons_of_mem _ later, rfl⟩
    | some t' =>
      refine ⟨entry i :: added, ?_, ?_⟩
      · rintro e (_ | ⟨_, member⟩)
        · exact ⟨i, List.mem_cons_self, rfl⟩
        · obtain ⟨j, later, rfl⟩ := from_indexes e member
          exact ⟨j, List.mem_cons_of_mem _ later, rfl⟩
      · rw [Table.insertOrIgnore, inserted, Option.getD_some, (Table.insert_eq_some inserted).2,
          List.append_assoc]
        rfl

def AxisEntry.shift (b : Band) (e : AxisEntry) : AxisEntry :=
  if e.sheet = b.sheet then { e with position := b.shift e.position } else e

theorem AxisEntry.removal_shift (inserts : b.insert = true) (e : AxisEntry) :
    ((e.shift b).sheet = b.sheet && b.removal.deletes (e.shift b).position) = false ∧
      (e.shift b).shift b.removal = e := by
  by_cases here : e.sheet = b.sheet
  · obtain ⟨outside, back⟩ := Band.removal_shift inserts e.position
    have moved : e.shift b = { e with position := b.shift e.position } := if_pos here
    rw [moved]
    refine ⟨by simp [outside], ?_⟩
    rw [AxisEntry.shift, if_pos (show e.sheet = b.removal.sheet from here), back]
  · have still : e.shift b = e := if_neg here
    rw [still]
    exact ⟨by simp [here], if_neg here⟩

theorem shiftEntries_rows (t : Table AxisEntry AxisEntry.key) (b : Band)
    (key : Nat → StableKey) : ∃ added,
    (∀ e ∈ added, e.sheet = b.sheet ∧ b.removal.deletes e.position = true) ∧
      (b.insert = false → added = []) ∧ (shiftEntries t b key).rows =
        ((t.rows.filter fun e => !(e.sheet = b.sheet && b.deletes e.position)).map
          (AxisEntry.shift b)) ++ added := by
  let moved := (t.delete fun e => e.sheet = b.sheet && b.deletes e.position).update
    (fun e => e.sheet = b.sheet) (fun e => { e with position := b.shift e.position }) fun _ => rfl
  have moved_rows : moved.rows = (t.rows.filter fun e =>
      !(e.sheet = b.sheet && b.deletes e.position)).map (AxisEntry.shift b) := by
    simp only [moved, Table.update, Table.delete, decide_eq_true_eq]
    rfl
  cases inserts : b.insert with
  | false =>
    refine ⟨[], by simp, fun _ => rfl, ?_⟩
    rw [List.append_nil, ← moved_rows, shiftEntries, inserts, if_neg Bool.false_ne_true]
  | true =>
    obtain ⟨added, new, rows⟩ := foldl_insertOrIgnore_rows moved
      (List.range' b.position b.count) fun i => ⟨b.sheet, key i, i⟩
    refine ⟨added, fun e member => ?_, fun impossible => absurd impossible Bool.true_eq_false.mp, ?_⟩
    · obtain ⟨i, inside, rfl⟩ := new e member
      have bounds := List.mem_range'_1.mp inside
      exact ⟨rfl, Band.deletes_iff.mpr ⟨rfl, bounds⟩⟩
    · rw [← moved_rows, ← rows, shiftEntries, inserts, if_pos rfl]

theorem shiftEntries_removal (inserts : b.insert = true) :
    shiftEntries (shiftEntries t b key) b.removal key = t := by
  obtain ⟨added, new, -, forth⟩ := shiftEntries_rows t b key
  obtain ⟨_, -, none_added, back⟩ := shiftEntries_rows (shiftEntries t b key) b.removal key
  apply Table.ext_rows
  have gone : (added.filter fun e =>
      !(e.sheet = b.removal.sheet && b.removal.deletes e.position)) = [] := by
    refine List.filter_eq_nil_iff.mpr fun e member => ?_
    obtain ⟨here, inside⟩ := new e member
    simp [show e.sheet = b.removal.sheet from here, inside]
  have all_kept : (t.rows.filter fun e => !(e.sheet = b.sheet && b.deletes e.position)) = t.rows :=
    List.filter_eq_self.mpr fun e _ => by simp [Band.deletes, inserts]
  rw [back, none_added rfl, List.append_nil, forth, List.filter_append, gone, List.append_nil,
    all_kept, List.filter_eq_self.mpr, List.map_map]
  · exact (List.map_congr_left fun e _ => (AxisEntry.removal_shift inserts e).2).trans
      (List.map_id _)
  · intro e member
    obtain ⟨first, _, rfl⟩ := List.mem_map.mp member
    rw [show b.removal.sheet = b.sheet from rfl, (AxisEntry.removal_shift inserts first).1]
    rfl

end Entries

def RangePermission.opened (b : Band) (r : RangePermission) : Bool :=
  r.sheet = b.sheet && r.start b.axis < b.position && b.position < r.stop b.axis

theorem RangePermission.move_start (r : RangePermission) (f : Nat → Nat) (a : Axis) (ordered) :
    (r.move f a ordered).start a = f (r.start a) ∧ (r.move f a ordered).stop a = f (r.stop a) := by
  cases a <;> exact ⟨rfl, rfl⟩

theorem RangePermission.move_move (r : RangePermission) (n : Nat) (a : Axis) (ordered back) :
    (r.move (· + n) a ordered).move (· - n) a back = r := by
  cases a <;> simp [RangePermission.move]

theorem RangePermission.removal_shift {b : Band} (inserts : b.insert = true) (r : RangePermission) :
    ((r.shift b).sheet = b.sheet && (r.shift b).overlaps b.removal) = r.opened b ∧
      (r.opened b = false → (r.shift b).shift b.removal = r) := by
  by_cases here : r.sheet = b.sheet
  · by_cases after : b.position ≤ r.start b.axis
    · have moved : r.shift b = r.move (· + b.count) b.axis
          (Nat.add_lt_add_right (r.start_lt_stop b.axis) b.count) := by
        rw [RangePermission.shift, if_pos inserts, if_pos ⟨here, after⟩]
      obtain ⟨start, -⟩ := r.move_start (· + b.count) b.axis
        (Nat.add_lt_add_right (r.start_lt_stop b.axis) b.count)
      have beyond : b.removal.position + b.removal.count ≤ (r.shift b).start b.removal.axis := by
        rw [moved]
        exact start ▸ Nat.add_le_add_right after b.count
      constructor
      · have apart : (r.shift b).overlaps b.removal = false := by
          rw [← Bool.not_eq_true, RangePermission.overlaps_iff]
          omega
        rw [apart, Bool.and_false]
        simp [RangePermission.opened, Nat.not_lt.mpr after]
      · intro _
        rw [RangePermission.shift, if_neg (show ¬b.removal.insert = true from Bool.false_ne_true),
          dif_pos ⟨r.shift_sheet.1.trans here, beyond⟩]
        have back : ∀ q : RangePermission, q = r.move (· + b.count) b.axis
            (Nat.add_lt_add_right (r.start_lt_stop b.axis) b.count) →
              ∀ ordered, q.move (· - b.count) b.axis ordered = r := by
          rintro q rfl ordered
          exact r.move_move b.count b.axis _ ordered
        exact back _ moved _
    · have still : r.shift b = r := by
        rw [RangePermission.shift, if_pos inserts, if_neg fun h => after h.2]
      rw [still]
      constructor
      · have inside : r.start b.axis < b.position + b.count := by omega
        rw [RangePermission.opened, RangePermission.overlaps]
        simp only [Band.removal, here, inside, Nat.not_le.mp after, decide_true, Bool.true_and]
        rfl
      · intro _
        rw [RangePermission.shift, if_neg (show ¬b.removal.insert = true from Bool.false_ne_true),
          dif_neg fun h => after (Nat.le_of_add_right_le h.2)]
  · rw [RangePermission.shift_away here, RangePermission.shift_away (b := b.removal) here]
    exact ⟨by simp [RangePermission.opened, here], fun _ => rfl⟩

theorem shiftRangePermissions_removal {b : Band} (inserts : b.insert = true)
    (ranges : List RangePermission) :
    shiftRangePermissions (shiftRangePermissions ranges b) b.removal =
      ranges.filter fun r => !r.opened b := by
  have all_kept : (ranges.filter fun r => b.insert || !(r.sheet = b.sheet && r.overlaps b)) =
      ranges := List.filter_eq_self.mpr fun r _ => by simp [inserts]
  rw [shiftRangePermissions, shiftRangePermissions, all_kept, List.filter_map, List.map_map]
  have kept (r : RangePermission) : ((fun q : RangePermission =>
      b.removal.insert || !(q.sheet = b.removal.sheet && q.overlaps b.removal)) ∘
        RangePermission.shift b) r = !r.opened b :=
    congrArg (!·) (RangePermission.removal_shift inserts r).1
  rw [List.filter_congr fun r _ => kept r]
  refine (List.map_congr_left fun r member => ?_).trans (List.map_id _)
  exact (RangePermission.removal_shift inserts r).2 (by simpa using (List.mem_filter.mp member).2)

theorem Cell.Moved.eq_shift {b : Band} {c q : Cell} (moved : c.Moved b q) : q = c.shift b := by
  by_cases early : c.sheet ≠ b.sheet ∨ c.index b.axis < b.sourceBound
  · rw [moved.before early, (Cell.moved_shift b c).before early]
  · rw [not_or, not_not, Nat.not_lt] at early
    have here := moved.beyond early.1 early.2
    have there := (Cell.moved_shift b c).beyond early.1 early.2
    cases inserts : b.insert with
    | true =>
      rw [inserts, if_pos rfl] at here there
      exact here.trans there.symm
    | false =>
      rw [inserts, if_neg Bool.false_ne_true] at here there
      exact Cell.reindex_add_injective (here.symm.trans there)

theorem shiftAxis_axes {file file' : File} {b : Band} (ran : shiftAxis file b = .ok file') :
    match b.axis with
    | .row => file'.rows = shiftEntries file.rows b .row ∧ file'.columns = file.columns
    | .column => file'.rows = file.rows ∧ file'.columns = shiftEntries file.columns b .column := by
  unfold shiftAxis at ran
  obtain ⟨cells, _, ran⟩ := bind_eq_ok.mp ran
  cases axis : b.axis with
  | row =>
    rw [axis] at ran
    cases ran
    exact ⟨rfl, rfl⟩
  | column =>
    rw [axis] at ran
    obtain ⟨statistics, _, ran⟩ := bind_eq_ok.mp ran
    cases ran
    exact ⟨rfl, rfl⟩

/-- What `_shift_axis` does where it goes through, and what an insertion and the deletion of the
same band do together: only the ranges that the band opens strictly inside are lost. -/
theorem shiftAxis_lossless {file file' : File} {b : Band} (ran : shiftAxis file b = .ok file') :
    (∀ q, q ∈ file'.cells ↔ ∃ c ∈ file.cells, c.Survives b ∧ c.Moved b q) ∧
    (∀ c ∈ file.cells, ∀ d ∈ file.cells, c.Survives b → d.Survives b → ∀ q,
      c.Moved b q → d.Moved b q → c = d) ∧
    (b.insert = true → ∀ file'', shiftAxis file' b.removal = .ok file'' →
      file''.cells = file.cells ∧ file''.rows = file.rows ∧ file''.columns = file.columns) ∧
    (b.insert = true → ∀ ranges : List RangePermission,
      shiftRangePermissions (shiftRangePermissions ranges b) b.removal =
        ranges.filter fun r => !r.opened b) := by
  refine ⟨fun q => ?_, ?_, ?_, fun inserts => shiftRangePermissions_removal inserts⟩
  · rw [mem_shiftCells (shiftAxis_cells ran)]
    constructor
    · rintro ⟨c, member, stays, rfl⟩
      exact ⟨c, member, stays, c.moved_shift b⟩
    · rintro ⟨c, member, stays, moved⟩
      exact ⟨c, member, stays, moved.eq_shift.symm⟩
  · intro c hc d hd c_stays d_stays q c_moved d_moved
    have one_place : (c.shift b).key = (d.shift b).key := by
      rw [← c_moved.eq_shift, ← d_moved.eq_shift]
    exact Table.eq_of_key hc hd (Cell.shift_injective c_stays d_stays one_place)
  · intro inserts file'' back
    refine ⟨shiftCells_removal inserts (shiftAxis_cells ran) (shiftAxis_cells back), ?_⟩
    have forth := shiftAxis_axes ran
    have again := shiftAxis_axes back
    rw [show b.removal.axis = b.axis from rfl] at again
    cases axis : b.axis with
    | row =>
      rw [axis] at forth again
      rw [again.1, again.2, forth.1, forth.2, shiftEntries_removal inserts]
      exact ⟨rfl, rfl⟩
    | column =>
      rw [axis] at forth again
      rw [again.1, again.2, forth.1, forth.2, shiftEntries_removal inserts]
      exact ⟨rfl, rfl⟩

theorem insertion_lossless : ∃ file', shiftAxis rowsTwoAndThree.file (insertRow 1) = .ok file' ∧
    ∀ q, q ∈ file'.cells ↔ ∃ c ∈ rowsTwoAndThree.file.cells,
      c.Survives (insertRow 1) ∧ c.Moved (insertRow 1) q := by
  obtain ⟨file', ran⟩ : ∃ file', shiftAxis rowsTwoAndThree.file (insertRow 1) = .ok file' :=
    exists_of_isOk (by decide)
  exact ⟨file', ran, (shiftAxis_lossless ran).1⟩

/-- A row is inserted inside a read-only range and deleted again, and the range is gone. -/
theorem inserted_row_takes_range : ¬∀ (b : Band) (ranges : List RangePermission),
    b.insert = true → shiftRangePermissions (shiftRangePermissions ranges b) b.removal = ranges := by
  intro claimed
  have kept := claimed (insertRow 3) [columnRange 2 4 (by decide)] rfl
  exact absurd (congrArg List.length kept) (by decide)

end Plexichat.Sum
