import Plexichat.Sum.Mutations

/-! Whether the cells in the read-only ranges survive a mutation by a user who does not own
the workbook. -/
namespace Plexichat.Sum

def Cell.SameContent (q c : Cell) : Prop :=
  q.valueType = c.valueType ∧ q.value = c.value ∧ q.formula = c.formula

/-- The file has the content of `c` at the position of `place`. -/
def File.Shows (file : File) (place c : Cell) : Prop :=
  ∃ q ∈ file.cells, q.key = place.key ∧ q.SameContent c

def Mutation.band (call : Call) (d : Document) : Mutation → Option Band
  | .operation r =>
    if r.type.structural && (d.file.operations.find call.operationId).isNone then
      (anchorBand r.type r.sheet r.cells).toOption
    else none
  | _ => none

def Cell.landing (band : Option Band) (c : Cell) : Cell := band.elim c fun b => c.shift b

def KeepsProtected (call : Call) (m : Mutation) (d d' : Document) : Prop :=
  ∀ c ∈ d.file.cells, d.protectsCell c = true → d'.file.Shows (c.landing (m.band call d)) c

def Document.ProtectedIn (d : Document) (file : File) : Prop :=
  ∀ c ∈ d.file.cells, d.protectsCell c = true → file.Shows c c

/-- The row that comes to the place of each protected cell has the same content in its column. -/
def SortRange.LeavesProtected (computed : File → Nat → Nat → Nat → Computed) (s : SortRange)
    (d : Document) : Prop :=
  (s.rowKeys d.file).length < 2 ∨
    ∀ c ∈ d.file.cells, d.protectsCell c = true → s.contains c = true →
      ∃ q ∈ d.file.cells, q.sheet = s.sheet ∧ q.column = c.column ∧
        (s.sortedRows computed d.file)[c.row - s.startRow]? = some q.row ∧ q.SameContent c

def Mutation.Spares (computed : File → Nat → Nat → Nat → Computed) (d : Document) : Mutation → Prop
  | .sort s => s.LeavesProtected computed d
  | .upload _ file => d.ProtectedIn file
  | .restore snapshot => ∀ file, snapshot = some file → d.ProtectedIn file
  | _ => True

theorem Cell.SameContent.refl (c : Cell) : c.SameContent c := ⟨rfl, rfl, rfl⟩

theorem File.shows_of_mem {file : File} {c : Cell} (member : c ∈ file.cells) : file.Shows c c :=
  ⟨c, member, rfl, .refl c⟩

section Writes

variable {sheet revision now : Nat} {cells : List NormalizedCell} {file file' : File} {c : Cell}

theorem cellRow_key (file : File) (sheet : Nat) (cell : NormalizedCell) (revision now : Nat) :
    (cellRow file sheet cell revision now).key = (sheet, cell.row, cell.column) := by
  unfold cellRow
  cases cell.content with
  | write valueType value formula => rfl
  | preserve =>
    cases file.cells.find (sheet, cell.row, cell.column) with
    | none => rfl
    | some previous => rfl

theorem mem_applyNormalizedCell {cell : NormalizedCell} (member : c ∈ file.cells)
    (elsewhere : c.key ≠ (sheet, cell.row, cell.column)) :
    c ∈ (applyNormalizedCell sheet revision now file cell).cells := by
  have found : (applyNormalizedCell sheet revision now file cell).cells.find c.key = some c := by
    refine (Table.find_upsert ..).trans ?_
    rw [cellRow_key, if_neg elsewhere.symm]
    exact Table.find_eq_some.mpr ⟨member, rfl⟩
  exact (Table.find_eq_some.mp found).1

theorem mem_applyCells (member : c ∈ file.cells)
    (elsewhere : ∀ cell ∈ cells, c.key ≠ (sheet, cell.row, cell.column)) :
    c ∈ (applyCells file sheet cells revision now).cells := by
  unfold applyCells
  induction cells generalizing file with
  | nil => exact member
  | cons cell cells ih =>
    rw [List.foldl_cons]
    apply ih
    · exact mem_applyNormalizedCell member (elsewhere cell List.mem_cons_self)
    · intro other later
      exact elsewhere other (List.mem_cons_of_mem cell later)

theorem insertOperation_cells {row : OperationRow} (h : insertOperation file row = some file') :
    file'.cells = file.cells := by
  obtain ⟨operations, _, rfl⟩ := Option.map_eq_some_iff.mp h
  rfl

theorem applyLive_cells {row : OperationRow} (h : applyLive file row = some file') :
    file'.cells = (applyCells file row.sheet row.payload.getCells row.resultRevision
      row.createdAt).cells := by
  obtain ⟨written, inserted, rfl⟩ := Option.map_eq_some_iff.mp h
  have same : written.cells = _ := insertOperation_cells inserted
  exact same

theorem mem_importChunks {call : Call} {ids : Nat → List Char} {i n n' : Nat}
    {chunks : List (List NormalizedCell)}
    (h : importChunks call sheet ids file n i chunks = some (file', n')) (member : c ∈ file.cells)
    (elsewhere : ∀ chunk ∈ chunks, ∀ cell ∈ chunk, c.key ≠ (sheet, cell.row, cell.column)) :
    c ∈ file'.cells := by
  induction chunks generalizing file n i with
  | nil =>
    cases h
    exact member
  | cons chunk chunks ih =>
    rw [importChunks, Option.bind_eq_some_iff] at h
    obtain ⟨next, inserted, h⟩ := h
    apply ih h
    · rw [insertOperation_cells inserted]
      exact mem_applyCells member (elsewhere chunk List.mem_cons_self)
    · intro other later
      exact elsewhere other (List.mem_cons_of_mem chunk later)

end Writes

section Checked

variable {d d' : Document} {user sheet : Nat} {cells : List NormalizedCell}

theorem elsewhere_of_check (stranger : user ≠ d.ownerId)
    (checked : checkRangePermissions d sheet cells user = .ok ()) {c : Cell}
    (protected_cell : d.protectsCell c = true) :
    ∀ cell ∈ cells, c.key ≠ (sheet, cell.row, cell.column) := by
  unfold checkRangePermissions at checked
  rw [if_neg (Ne.symm stranger)] at checked
  split at checked
  · cases checked
  · rename_i clear
    intro cell member here
    have covered : d.protects sheet cell.row cell.column = true := by
      injection here with same_sheet rest
      injection rest with same_row same_column
      rw [← same_sheet, ← same_row, ← same_column]
      exact protected_cell
    exact clear (List.any_eq_true.mpr ⟨cell, member, covered⟩)

theorem survives_of_check (stranger : user ≠ d.ownerId) {b : Band}
    (checked : checkStructuralPermission d b user = .ok ()) {c : Cell}
    (protected_cell : d.protectsCell c = true) : c.Survives b := by
  intro here
  unfold checkStructuralPermission at checked
  rw [if_neg (Ne.symm stranger)] at checked
  cases inserts : b.insert with
  | true => simp [Band.deletes, inserts]
  | false =>
    rw [inserts] at checked
    split at checked
    · cases ‹false = true›
    · split at checked
      · cases checked
      · rename_i clear
        obtain ⟨r, stored, covers⟩ := protectsCell_iff.mp protected_cell
        obtain ⟨read_only, on_sheet, span, _⟩ := (r.coversCell_iff b.axis).mp covers
        have apart : ¬ r.overlaps b = true := by
          intro overlap
          refine clear (List.any_eq_true.mpr ⟨r, stored, ?_⟩)
          simp [read_only, on_sheet.trans here, overlap]
        rw [RangePermission.overlaps_iff] at apart
        simp only [Band.deletes, inserts, Bool.not_false, Bool.true_and, Bool.and_eq_false_iff,
          decide_eq_false_iff_not]
        have inside := span.1
        have below := span.2
        omega

end Checked

section Mutations

variable {validates : File → Nat → List NormalizedCell → Bool}
  {computed : File → Nat → Nat → Nat → Computed} {call : Call} {d d' : Document}

theorem Cell.reindex_sameContent (a : Axis) (f : Nat → Nat) (c : Cell) :
    (c.reindex a f).SameContent c := by
  cases a with
  | row => exact ⟨rfl, rfl, rfl⟩
  | column => exact ⟨rfl, rfl, rfl⟩

theorem Cell.shift_sameContent (b : Band) (c : Cell) : (c.shift b).SameContent c := by
  unfold Cell.shift
  split
  · exact c.reindex_sameContent b.axis b.shift
  · exact .refl c

theorem edit_keeps (stranger : call.user ≠ d.ownerId) {r : Request}
    (fresh : (d.file.operations.find call.operationId).isNone = true)
    (done : edit validates call r d = .ok d') : KeepsProtected call (.operation r) d d' := by
  intro c member protected_cell
  unfold edit at done
  cases structural : r.type.structural with
  | true =>
    rw [structural, if_pos rfl] at done
    obtain ⟨b, anchor, done⟩ := bind_eq_ok.mp done
    obtain ⟨checked, cells, _⟩ := applyStructural_eq_ok done
    have band : (Mutation.operation r).band call d = some b := by
      simp [Mutation.band, structural, fresh, anchor, Except.toOption]
    rw [band]
    have survives := survives_of_check stranger checked protected_cell
    exact ⟨c.shift b, (mem_shiftCells cells).mpr ⟨c, member, survives, rfl⟩, rfl,
      c.shift_sameContent b⟩
  | false =>
    rw [structural, if_neg Bool.false_ne_true] at done
    obtain ⟨cells, _, done⟩ := bind_eq_ok.mp done
    obtain ⟨⟨⟩, checked, done⟩ := bind_eq_ok.mp done
    obtain ⟨file, live, done⟩ := bind_eq_ok.mp done
    cases done
    have band : (Mutation.operation r).band call d = none := by simp [Mutation.band, structural]
    rw [band]
    unfold checkCells at checked
    split at checked
    · split at checked
      · apply File.shows_of_mem
        show c ∈ file.cells
        rw [applyLive_cells (updated_eq_ok.mp live)]
        exact mem_applyCells member (elsewhere_of_check stranger checked protected_cell)
      · cases checked
    · cases checked

theorem applyToDocument_keeps (stranger : call.user ≠ d.ownerId) {r : Request}
    (done : applyToDocument validates call r d = .ok d') :
    KeepsProtected call (.operation r) d d' := by
  unfold applyToDocument at done
  obtain ⟨⟨⟩, _, done⟩ := bind_eq_ok.mp done
  split at done
  · split at done
    · rename_i known
      cases done
      intro c member _
      have band : (Mutation.operation r).band call d = none := by
        simp [Mutation.band, Option.isNone_iff_eq_none.not.mpr (Option.isSome_iff_ne_none.mp known)]
      rw [band]
      exact File.shows_of_mem member
    · rename_i unknown
      exact edit_keeps stranger (by simpa using unknown) done
  · cases done

theorem importCsv_keeps (stranger : call.user ≠ d.ownerId) {sheet : Nat} {ids : Nat → List Char}
    {cells : List NormalizedCell} {raw : List RawCell}
    (done : importCsv validates call sheet ids cells raw d = .ok d') :
    KeepsProtected call (.importCsv sheet ids cells raw) d d' := by
  unfold importCsv at done
  split at done
  · cases done
  · split at done
    · exact applyToDocument_keeps stranger done
    · split at done
      · obtain ⟨⟨⟩, checked, done⟩ := bind_eq_ok.mp done
        split at done
        · split at done
          · obtain ⟨imported, chunked, done⟩ := bind_eq_ok.mp done
            cases done
            intro c member protected_cell
            have clear := elsewhere_of_check stranger checked protected_cell
            have kept : c ∈ imported.1.cells := by
              refine mem_importChunks (updated_eq_ok.mp chunked) member ?_
              intro chunk sliced cell inside
              obtain ⟨i, _, rfl⟩ := List.mem_map.mp sliced
              exact clear cell (List.mem_of_mem_drop (List.mem_of_mem_take inside))
            exact File.shows_of_mem kept
          · cases done
        · cases done
      · cases done

theorem keeps_of_cells {m : Mutation} (still : m.band call d = none)
    (same : d'.file.cells = d.file.cells) : KeepsProtected call m d d' := by
  intro c member _
  rw [still]
  apply File.shows_of_mem
  rw [same]
  exact member

theorem insertAll_rows {t t' : Table Cell Cell.key} {cells : List Cell}
    (h : insertAll t cells = some t') : t'.rows = t.rows ++ cells := by
  induction cells generalizing t with
  | nil =>
    cases h
    simp
  | cons c cells ih =>
    obtain ⟨next, inserted, h⟩ := Option.bind_eq_some_iff.mp h
    rw [ih h, (Table.insert_eq_some inserted).2, List.append_assoc]
    rfl

theorem insertAll_of_nodup {t : Table Cell Cell.key} {cells : List Cell}
    (free : ((t.rows ++ cells).map Cell.key).Nodup) : ∃ t', insertAll t cells = some t' := by
  induction cells generalizing t with
  | nil => exact ⟨t, rfl⟩
  | cons c cells ih =>
    have fresh : t.find c.key = none := by
      rw [Table.find_eq_none]
      intro q member same
      rw [List.map_append, List.map_cons, ← same] at free
      exact List.disjoint_of_nodup_append free (List.mem_map_of_mem member) List.mem_cons_self
    obtain ⟨next, inserted⟩ := Table.insert_of_fresh fresh
    have rows : next.rows ++ cells = t.rows ++ c :: cells := by
      rw [(Table.insert_eq_some inserted).2, List.append_assoc]
      rfl
    obtain ⟨t', rest⟩ := ih (rows ▸ free)
    exact ⟨t', by rw [insertAll, inserted]; exact rest⟩

theorem mem_packed {s : SortRange} {file : File} {order : List Nat} {q : Cell} :
    (q ∈ order.zipIdx.flatMap fun placed =>
      ((s.cells file).filter fun c => c.row = placed.1).map fun c =>
        { c with row := s.startRow + placed.2 }) ↔
    ∃ c ∈ file.cells, s.contains c = true ∧ ∃ offset, order[offset]? = some c.row ∧
      { c with row := s.startRow + offset } = q := by
  simp only [SortRange.cells, List.mem_flatMap, List.mem_map, List.mem_filter, Prod.exists,
    List.mk_mem_zipIdx_iff_getElem?, decide_eq_true_eq, and_assoc]
  constructor
  · rintro ⟨row, offset, placed, c, member, inside, rfl, rfl⟩
    exact ⟨c, member, inside, offset, placed, rfl⟩
  · rintro ⟨c, member, inside, offset, placed, rfl⟩
    exact ⟨c.row, offset, placed, c, member, inside, rfl, rfl⟩

theorem mem_target {s : SortRange} {file : File} {q : Cell} : q ∈ s.target computed file ↔
    ∃ c ∈ file.cells, s.contains c = true ∧ ∃ offset,
      (s.sortedRows computed file)[offset]? = some c.row ∧
        { c with row := s.startRow + offset } = q := mem_packed

theorem sortRange_eq_ok {s : SortRange} (done : sortRange computed call s d = .ok d') :
    ((s.rowKeys d.file).length < 2 ∧ d' = d) ∨
    (¬ (s.rowKeys d.file).length < 2 ∧ ∀ q, q ∈ d'.file.cells ↔
      (q ∈ d.file.cells ∧ s.contains q = false) ∨ q ∈ s.target computed d.file) := by
  unfold sortRange at done
  split at done
  · cases done
  split at done
  · cases done
  split at done
  · cases done
  split at done
  · cases done
  split at done
  · cases done
  split at done
  · cases done
  split at done
  · rename_i few
    cases done
    exact .inl ⟨few, rfl⟩
  rename_i many
  split at done
  · cases done
  obtain ⟨cells, packed, done⟩ := bind_eq_ok.mp done
  obtain ⟨file, logged, done⟩ := bind_eq_ok.mp done
  cases done
  refine .inr ⟨many, fun q => ?_⟩
  show q ∈ file.cells ↔ _
  rw [insertOperation_cells (updated_eq_ok.mp logged), Table.mem_rows,
    insertAll_rows (updated_eq_ok.mp packed), List.mem_append]
  exact or_congr_left Table.mem_delete

theorem contains_iff {s : SortRange} {c : Cell} : s.contains c = true ↔
    c.sheet = s.sheet ∧ s.startRow ≤ c.row ∧ c.row < s.endRow := by
  simp [SortRange.contains, and_assoc]

theorem mem_rowKeys {s : SortRange} {file : File} {row : Nat} :
    row ∈ s.rowKeys file ↔ ∃ c ∈ file.cells, s.contains c = true ∧ c.row = row := by
  unfold SortRange.rowKeys
  rw [(List.perm_insertionSort _ _).mem_iff, List.mem_eraseDups, List.mem_map]
  simp only [SortRange.cells, List.mem_filter, and_assoc]
  rfl

theorem mem_sortedRows {s : SortRange} {file : File} {row : Nat}
    (sorted : row ∈ s.sortedRows computed file) :
    ∃ c ∈ file.cells, s.contains c = true ∧ c.row = row :=
  mem_rowKeys.mp ((List.perm_insertionSort _ _).mem_iff.mp sorted)

/-- The sort keeps the protected content exactly when the order puts it back. -/
theorem sortRange_keeps_iff {s : SortRange} (done : sortRange computed call s d = .ok d') :
    KeepsProtected call (.sort s) d d' ↔ s.LeavesProtected computed d := by
  cases sortRange_eq_ok done with
  | inl unsorted =>
    obtain ⟨few, rfl⟩ := unsorted
    exact iff_of_true (keeps_of_cells rfl rfl) (.inl few)
  | inr sorted =>
    obtain ⟨many, after⟩ := sorted
    constructor
    · intro keeps
      refine .inr fun c member protected_cell inside => ?_
      obtain ⟨q, there, key, content⟩ := keeps c member protected_cell
      injection key with same_sheet rest
      injection rest with same_row same_column
      have within : s.contains q = true := by
        rw [contains_iff, same_sheet, same_row]
        exact contains_iff.mp inside
      obtain outside | placed := (after q).mp there
      · rw [within] at outside
        cases outside.2
      · obtain ⟨origin, before, origin_inside, offset, at_offset, rfl⟩ := mem_target.mp placed
        have row : s.startRow + offset = c.row := same_row
        refine ⟨origin, before, (contains_iff.mp origin_inside).1, same_column, ?_, content⟩
        rw [← row, Nat.add_sub_cancel_left]
        exact at_offset
    · intro leaves c member protected_cell
      cases inside : s.contains c with
      | false => exact File.shows_of_mem ((after c).mpr (.inl ⟨member, inside⟩))
      | true =>
        obtain ⟨q, before, sheet, column, placed, content⟩ :=
          leaves.resolve_left many c member protected_cell inside
        obtain ⟨on_sheet, from_start, _⟩ := contains_iff.mp inside
        have row : s.startRow + (c.row - s.startRow) = c.row := Nat.add_sub_cancel' from_start
        have q_inside : s.contains q = true := by
          obtain ⟨origin, _, origin_inside, same_row⟩ :=
            mem_sortedRows (List.mem_of_getElem? placed)
          obtain ⟨_, bounds⟩ := contains_iff.mp origin_inside
          exact contains_iff.mpr ⟨sheet, same_row ▸ bounds⟩
        refine ⟨{ q with row := c.row }, (after _).mpr (.inr (mem_target.mpr
          ⟨q, before, q_inside, c.row - s.startRow, placed, by rw [row]⟩)), ?_, content⟩
        show (q.sheet, c.row, q.column) = (c.sheet, c.row, c.column)
        rw [sheet, column, on_sheet]

/-- A mutation by a user who does not own the workbook keeps every protected cell, unless it is
a sort or a replacement of the whole file that puts other content in its place. -/
theorem mutation_keeps_iff (stranger : call.user ≠ d.ownerId) {m : Mutation}
    (done : mutate validates computed call m d = .ok d') :
    KeepsProtected call m d d' ↔ m.Spares computed d := by
  cases m with
  | operation r => exact iff_of_true (applyToDocument_keeps stranger done) trivial
  | sort s => exact sortRange_keeps_iff done
  | importCsv sheet ids cells raw => exact iff_of_true (importCsv_keeps stranger done) trivial
  | upload base file =>
    replace done : uploadFile call base file d = .ok d' := done
    unfold uploadFile at done
    split at done
    · cases done
    · cases done
      rfl
  | restore snapshot =>
    cases snapshot with
    | none => cases done
    | some file =>
      cases done
      exact ⟨fun keeps _ same => Option.some.inj same ▸ keeps, fun spares => spares file rfl⟩
  | createSheet id name =>
    obtain ⟨_, _, done⟩ := bind_eq_ok.mp done
    obtain ⟨_, _, done⟩ := bind_eq_ok.mp done
    cases done
    exact iff_of_true (keeps_of_cells rfl rfl) trivial
  | renameSheet sheet name =>
    replace done : renameSheet sheet name d = .ok d' := done
    unfold renameSheet at done
    split at done
    · obtain ⟨_, _, done⟩ := bind_eq_ok.mp done
      cases done
      exact iff_of_true (keeps_of_cells rfl rfl) trivial
    · cases done
  | deleteSheet sheet =>
    replace done : deleteSheet sheet d = .ok d' := done
    unfold deleteSheet at done
    split at done
    · split at done
      · cases done
      · cases done
        exact iff_of_true (keeps_of_cells rfl rfl) trivial
    · cases done
  | feature sheet =>
    replace done : mutateFeature sheet d = .ok d' := done
    unfold mutateFeature at done
    split at done
    · cases done
      exact iff_of_true (keeps_of_cells rfl rfl) trivial
    · cases done

end Mutations

def anyCells : File → Nat → List NormalizedCell → Bool := fun _ _ _ => true

def digits : File → Nat → Nat → Nat → Computed := fun file sheet row column =>
  match (file.cells.find (sheet, row, column)).map Cell.value with
  | some [digit] => .number (digit.toNat - '0'.toNat : Nat)
  | _ => .blank

def twoAboveOne : Table Cell Cell.key := ⟨[numberAt 0 '2', numberAt 1 '1'], by decide⟩

def lockedNumbers : Document := ledger twoAboveOne [columnRange 0 2 (by decide)]

def editor : Call := ⟨2, ['o'], 0, 0⟩

def ascending : SortRange := ⟨1, 0, 0, 2, false⟩

theorem sort_moves_locked_numbers : ¬ ∀ (validates : File → Nat → List NormalizedCell → Bool)
    (computed : File → Nat → Nat → Nat → Computed) (call : Call) (m : Mutation) (d d' : Document),
    call.user ≠ d.ownerId → mutate validates computed call m d = .ok d' →
      KeepsProtected call m d d' := by
  intro law
  obtain ⟨d', done⟩ : ∃ d', sortRange digits editor ascending lockedNumbers = .ok d' :=
    exists_of_isOk (by decide +kernel)
  have keeps := law anyCells digits editor (.sort ascending) lockedNumbers d' (by decide) done
  have leaves := ((sortRange_keeps_iff done).mp keeps).resolve_left (by decide)
  obtain ⟨q, member, _, _, placed, _, value, _⟩ :=
    leaves (numberAt 0 '2') List.mem_cons_self (by decide) (by decide)
  have order : ascending.sortedRows digits lockedNumbers.file = [1, 0] := by decide +kernel
  rw [order] at placed
  have cells : q = numberAt 0 '2' ∨ q = numberAt 1 '1' := by
    simpa [Table.mem_rows, lockedNumbers, ledger, twoAboveOne] using member
  cases cells with
  | inl two =>
    rw [two] at placed
    exact absurd placed (by decide)
  | inr one =>
    rw [one] at value
    exact absurd value (by decide)

def insertAbove : Request := ⟨1, .insertRows, [⟨some 0, some 0, some 3, none, [], none, []⟩]⟩

/-- An insertion of three rows above the locked numbers by an editor. -/
theorem insertion_moves_locked_numbers_down : ∃ d',
    mutate anyCells digits editor (.operation insertAbove) lockedNumbers = .ok d' ∧
      KeepsProtected editor (.operation insertAbove) lockedNumbers d' := by
  obtain ⟨d', done⟩ : ∃ d', mutate anyCells digits editor (.operation insertAbove) lockedNumbers =
      .ok d' := exists_of_isOk (by decide)
  exact ⟨d', done, (mutation_keeps_iff (by decide) done).mpr trivial⟩

end Plexichat.Sum
