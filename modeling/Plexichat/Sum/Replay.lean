import Plexichat.Sum.Operations

/-! Whether the file rebuilt from the stored blob and the log is the live copy. The replay runs
the cells of a row, and not its axis metadata and statistics. -/
namespace Plexichat.Sum
open Transition

structure File.SameState (f g : File) : Prop where
  cells : f.cells = g.cells
  rows : f.rows = g.rows
  columns : f.columns = g.columns
  statistics : f.statistics = g.statistics

def applyAll (file : File) : List OperationRow → Option File
  | [] => some file
  | row :: rows => (applyLive file row).bind fun file => applyAll file rows

theorem applyAll_append (file : File) (rows more : List OperationRow) :
    applyAll file (rows ++ more) = (applyAll file rows).bind fun file => applyAll file more := by
  induction rows generalizing file with
  | nil => rfl
  | cons row rows ih =>
    simp only [List.cons_append, applyAll, Option.bind_assoc]
    exact congrArg (applyLive file row).bind (funext ih)

/-! Statistics: a replay leaves them, an operation raises one. -/

def accessCount (t : Table Statistic Statistic.key) (sheet column : Nat) : Nat :=
  ((t.find (sheet, column)).map Statistic.accessCount).getD 0

theorem find_countAccess (sheet : Nat) (t : Table Statistic Statistic.key) (count k : Nat × Nat) :
    (countAccess sheet t count).find k =
      if (sheet, count.1) = k then
        some (((t.find k).map (Statistic.add count.2)).getD ⟨sheet, count.1, count.2⟩)
      else t.find k := Table.find_upsert ..

theorem countAccess_le (sheet : Nat) (t : Table Statistic Statistic.key) (count : Nat × Nat)
    (k column : Nat) : accessCount t k column ≤ accessCount (countAccess sheet t count) k column := by
  unfold accessCount
  rw [find_countAccess]
  split
  · cases t.find (k, column) with
    | none => exact Nat.zero_le _
    | some old => exact Nat.le_add_right old.accessCount count.2
  · exact le_rfl

theorem countAccess_lt (sheet : Nat) (t : Table Statistic Statistic.key) {count : Nat × Nat}
    (counted : 0 < count.2) :
    accessCount t sheet count.1 < accessCount (countAccess sheet t count) sheet count.1 := by
  unfold accessCount
  rw [find_countAccess, if_pos rfl]
  cases t.find (sheet, count.1) with
  | none => exact counted
  | some old => exact Nat.lt_add_of_pos_right counted

theorem foldl_countAccess_le (sheet : Nat) (counts : List (Nat × Nat))
    (t : Table Statistic Statistic.key) (k column : Nat) :
    accessCount t k column ≤ accessCount (counts.foldl (countAccess sheet) t) k column := by
  induction counts generalizing t with
  | nil => exact le_rfl
  | cons count counts ih => exact (countAccess_le sheet t count k column).trans (ih _)

theorem foldl_countAccess_lt (sheet : Nat) {counts : List (Nat × Nat)} {count : Nat × Nat}
    (member : count ∈ counts) (counted : 0 < count.2) (t : Table Statistic Statistic.key) :
    accessCount t sheet count.1 <
      accessCount (counts.foldl (countAccess sheet) t) sheet count.1 := by
  induction counts generalizing t with
  | nil => cases member
  | cons first counts ih =>
    cases List.mem_cons.mp member with
    | inl here =>
      subst here
      exact (countAccess_lt sheet t counted).trans_le (foldl_countAccess_le sheet counts _ _ _)
    | inr later => exact (countAccess_le sheet t first _ _).trans_lt (ih later _)

theorem mem_columnCounts {cells : List NormalizedCell} {cell : NormalizedCell}
    (member : cell ∈ cells) : ∃ n, (cell.column, n) ∈ columnCounts cells ∧ 0 < n := by
  refine ⟨cells.countP (·.column = cell.column), ?_, ?_⟩
  · refine List.mem_map.mpr ⟨cell.column, ?_, rfl⟩
    exact List.mem_eraseDups.mpr (List.mem_map.mpr ⟨cell, member, rfl⟩)
  · exact List.countP_pos_iff.mpr ⟨cell, member, by simp⟩

theorem applyCells_statistics (file : File) (sheet : Nat) (cells : List NormalizedCell)
    (revision now : Nat) : (applyCells file sheet cells revision now).statistics = file.statistics := by
  unfold applyCells
  induction cells generalizing file with
  | nil => rfl
  | cons cell cells ih => exact ih _

theorem applyCells_operations (file : File) (sheet : Nat) (cells : List NormalizedCell)
    (revision now : Nat) : (applyCells file sheet cells revision now).operations = file.operations := by
  unfold applyCells
  induction cells generalizing file with
  | nil => rfl
  | cons cell cells ih => exact ih _

theorem applyLive_of_fresh {file : File} {row : OperationRow}
    (fresh : file.operations.find row.operationId = none) : ∃ g, applyLive file row = some g := by
  rw [← applyCells_operations file row.sheet row.payload.getCells row.resultRevision
    row.createdAt] at fresh
  obtain ⟨operations, logged⟩ := Table.insert_of_fresh fresh
  unfold applyLive insertOperation
  rw [logged]
  exact ⟨_, rfl⟩

theorem insertOperation_statistics {file file' : File} {row : OperationRow}
    (h : insertOperation file row = some file') : file'.statistics = file.statistics := by
  obtain ⟨operations, _, rfl⟩ := Option.map_eq_some_iff.mp h
  rfl

theorem replayUnflushed_statistics {file file' : File} {rows : List OperationRow}
    (h : replayUnflushed file rows = some file') : file'.statistics = file.statistics := by
  induction rows generalizing file with
  | nil =>
    cases h
    rfl
  | cons row rows ih =>
    obtain ⟨next, replayed, h⟩ := Option.bind_eq_some_iff.mp h
    rw [ih h, insertOperation_statistics replayed, applyCells_statistics]

theorem applyLive_statistics {file file' : File} {row : OperationRow}
    (h : applyLive file row = some file') : file'.statistics =
      (columnCounts row.payload.getCells).foldl (countAccess row.sheet) file.statistics := by
  obtain ⟨written, inserted, rfl⟩ := Option.map_eq_some_iff.mp h
  have before : written.statistics = file.statistics := by
    rw [insertOperation_statistics inserted, applyCells_statistics]
  rw [← before]
  rfl

theorem applyAll_access_le {file file' : File} {rows : List OperationRow}
    (h : applyAll file rows = some file') (k column : Nat) :
    accessCount file.statistics k column ≤ accessCount file'.statistics k column := by
  induction rows generalizing file with
  | nil =>
    cases h
    exact le_rfl
  | cons row rows ih =>
    obtain ⟨next, live, h⟩ := Option.bind_eq_some_iff.mp h
    refine le_trans ?_ (ih h)
    rw [applyLive_statistics live]
    exact foldl_countAccess_le _ _ _ _ _

theorem applyAll_statistics_ne {file file' : File} {row : OperationRow} {rows : List OperationRow}
    (written : row.payload.getCells ≠ []) (h : applyAll file (row :: rows) = some file') :
    file'.statistics ≠ file.statistics := by
  obtain ⟨next, live, h⟩ := Option.bind_eq_some_iff.mp h
  obtain ⟨cell, member⟩ := List.exists_mem_of_ne_nil _ written
  obtain ⟨n, counted, positive⟩ := mem_columnCounts member
  have raised : accessCount file.statistics row.sheet cell.column <
      accessCount next.statistics row.sheet cell.column := by
    rw [applyLive_statistics live]
    exact foldl_countAccess_lt row.sheet counted positive file.statistics
  intro same
  have onward := applyAll_access_le h row.sheet cell.column
  rw [same] at onward
  exact absurd (raised.trans_le onward) (lt_irrefl _)

/-! One process applies operations. -/

def Database.unflushed {φ : Type} (db : Database φ) : List OperationRow :=
  db.operations.rows.filter fun row => db.blobRevision < row.resultRevision

/-- The session of `p` is the stored blob with the unflushed rows applied. -/
structure Current (p : Nat) (s : Store) : Prop where
  logged : ∀ row ∈ s.db.operations, row.resultRevision ≤ s.db.currentRevision
  ordered : s.db.unflushed.Pairwise fun a b => a.resultRevision ≤ b.resultRevision
  written : ∀ row ∈ s.db.unflushed, row.payload.getCells ≠ []
  gap : s.db.unflushed = [] → s.db.currentRevision = s.db.blobRevision
  behind : s.db.blobRevision ≤ s.db.currentRevision
  live : ∀ x, s.sessions p = some x → x.loadedBlobRevision = s.db.blobRevision ∧
    applyAll s.db.blob s.db.unflushed = some x.file
  idle : s.sessions p = none → s.db.unflushed = []

theorem unflushed_eq_nil {φ : Type} {db : Database φ}
    (logged : ∀ row ∈ db.operations, row.resultRevision ≤ db.blobRevision) : db.unflushed = [] := by
  refine List.filter_eq_nil_iff.mpr fun row member beyond => ?_
  exact absurd (logged row member) (Nat.not_le.mpr (of_decide_eq_true beyond))

namespace Current

variable {p now : Nat} {s t : Store}

theorem of_clean (same : s.db.currentRevision = s.db.blobRevision)
    (logged : ∀ row ∈ s.db.operations, row.resultRevision ≤ s.db.currentRevision)
    (session : ∀ x, s.sessions p = some x → x.loadedBlobRevision = s.db.blobRevision ∧
      x.file = s.db.blob) : Current p s := by
  have clean : s.db.unflushed = [] := unflushed_eq_nil (same ▸ logged)
  refine ⟨logged, ?_, ?_, fun _ => same, same.ge, ?_, fun _ => clean⟩
  · rw [clean]
    exact .nil
  · rw [clean]
    exact nofun
  · intro x stored
    obtain ⟨loaded, file⟩ := session x stored
    rw [clean, file]
    exact ⟨loaded, rfl⟩

theorem rowsAfter_eq (h : Current p s) : s.db.rowsAfter s.db.blobRevision = s.db.unflushed :=
  h.ordered.insertionSort_eq

theorem compacted_nil (h : Current p s) {revision : Nat} (upTo : s.db.currentRevision ≤ revision) :
    (s.db.compacted revision).rows = [] := by
  refine List.filter_eq_nil_iff.mpr fun row member kept => ?_
  have old : row.resultRevision ≤ revision := (h.logged row member).trans upTo
  simp [old] at kept

theorem materialize_eq (h : Current p s) (now : Nat) : ∃ x t,
    materialize p now s = (.ok x.file, t) ∧ t.sessions p = some x ∧ t.db = s.db ∧ Current p t := by
  cases stored : s.sessions p with
  | some x =>
    have loaded := (h.live x stored).1
    have live : (s.sessions p).filter (fun x => x.loadedBlobRevision = s.db.blobRevision) =
        some x := by
      rw [stored, Option.filter_some, if_pos (by simpa using loaded)]
    refine ⟨x, s, ?_, stored, rfl, h⟩
    unfold materialize
    rw [live]
  | none =>
    have clean := h.idle stored
    have same := h.gap clean
    have blob : s.db.rebuilt = some s.db.blob := if_neg (by omega)
    refine ⟨⟨s.db.blob, s.db.blobRevision, s.db.currentRevision - s.db.blobRevision, now⟩,
      s.setSession p (some ⟨s.db.blob, s.db.blobRevision,
        s.db.currentRevision - s.db.blobRevision, now⟩), ?_, setSession_self .., rfl, ?_⟩
    · unfold materialize
      rw [stored, blob]
      rfl
    · refine of_clean same h.logged fun x found => ?_
      rw [setSession_self] at found
      cases found
      exact ⟨rfl, rfl⟩

theorem flush_keeps (h : Current p s) {x : Session File}
    (flushed : flushSession p now x s = some t) : Current p t := by
  unfold flushSession at flushed
  split at flushed
  · cases flushed
  · rename_i db done
    cases flushed
    obtain ⟨_, rfl⟩ := Database.flush_eq_ok.mp done
    refine of_clean rfl ?_ fun y found => ?_
    · intro row member
      have gone : row ∈ (s.db.compacted s.db.currentRevision).rows := member
      rw [h.compacted_nil le_rfl] at gone
      cases gone
    · rw [setSession_self] at found
      cases found
      exact ⟨rfl, rfl⟩

theorem maybeFlush_keeps (h : Current p s) (now : Nat) : Current p (maybeFlush p now s) := by
  unfold maybeFlush
  split
  · exact h
  · rename_i x stored
    split
    · exact h
    · have done : s.db.flush x.loadedBlobRevision s.db.currentRevision x.file =
          .ok { s.db with
            blobRevision := s.db.currentRevision
            blob := x.file
            operations := s.db.compacted s.db.currentRevision } :=
        Database.flush_eq_ok.mpr ⟨(h.live x stored).1.symm, rfl⟩
      cases flushed : flushSession p now x s with
      | none =>
        unfold flushSession at flushed
        rw [done] at flushed
        cases flushed
      | some t => exact h.flush_keeps flushed

theorem unflushed_append {db : Database File} {row : OperationRow}
    {operations : Table OperationRow OperationRow.operationId}
    (inserted : db.operations.insert row = some operations) (beyond : db.blobRevision < row.resultRevision) :
    ({ db with currentRevision := row.resultRevision, operations } : Database File).unflushed =
      db.unflushed ++ [row] := by
  unfold Database.unflushed
  rw [(Table.insert_eq_some inserted).2, List.filter_append]
  simp [beyond]

theorem appended_keeps (h : Current p s) {x : Session File} (stored : s.sessions p = some x)
    {call : Call} {r : Request} {cells : List NormalizedCell} {db : Database File}
    (fresh : x.file.operations.find call.operationId = none) (written : cells ≠ [])
    (appended : s.db.appendOpDurable (call.cellsRow r cells) = .ok db) :
    Current p (applyToSession p now x.file (call.cellsRow r cells) { s with db }).2 := by
  obtain ⟨base, operations, inserted, rfl⟩ := Database.appendOpDurable_eq_ok.mp appended
  have next : (call.cellsRow r cells).resultRevision = s.db.currentRevision + 1 := by
    rw [base]
    rfl
  obtain ⟨loaded, file⟩ := h.live x stored
  obtain ⟨g, live⟩ : ∃ g, applyLive x.file (call.cellsRow r cells) = some g :=
    applyLive_of_fresh fresh
  unfold applyToSession
  rw [live]
  apply maybeFlush_keeps
  have beyond : s.db.blobRevision < (call.cellsRow r cells).resultRevision := by
    rw [next]
    exact Nat.lt_succ_of_le h.behind
  have rows := unflushed_append inserted beyond
  refine ⟨?_, ?_, ?_, ?_, ?_, ?_, ?_⟩
  · intro row member
    cases (Table.mem_insert inserted).mp member with
    | inl old => exact (h.logged row old).trans (next ▸ Nat.le_succ _)
    | inr new => exact new ▸ le_rfl
  · show (Database.unflushed _).Pairwise _
    rw [setSession_db, rows]
    refine List.pairwise_append.mpr ⟨h.ordered, List.pairwise_singleton _ _, ?_⟩
    intro a old b new
    rw [List.mem_singleton.mp new, next]
    exact (h.logged a (List.mem_of_mem_filter old)).trans (Nat.le_succ _)
  · rw [setSession_db, rows]
    intro row member
    cases List.mem_append.mp member with
    | inl old => exact h.written row old
    | inr new =>
      rw [List.mem_singleton.mp new]
      exact written
  · rw [setSession_db, rows]
    intro clean
    cases (List.append_eq_nil_iff.mp clean).2
  · show s.db.blobRevision ≤ (call.cellsRow r cells).resultRevision
    exact beyond.le
  · intro y found
    rw [setSession_self, stored] at found
    cases found
    refine ⟨loaded, ?_⟩
    rw [setSession_db, rows, applyAll_append, file]
    show (applyLive x.file _).bind _ = _
    rw [live]
    rfl
  · intro idle
    rw [setSession_self, stored] at idle
    cases idle

theorem published_keeps (h : Current p s) {call : Call} {r : Request} {b : Band} {file : File}
    {db : Database File} (ranges : List RangePermission)
    (published : s.db.publishRevision s.db.currentRevision (s.db.currentRevision + 1) file =
      .ok db) :
    Current p (finishStructural (call.structuralRow r b s.db.currentRevision) ranges
      (Store.setSession { s with db } p none)).2 := by
  obtain ⟨_, rfl⟩ := Database.publishRevision_eq_ok.mp published
  have gone := h.compacted_nil (Nat.le_succ s.db.currentRevision)
  unfold finishStructural
  split
  · refine of_clean rfl ?_ fun x found => ?_
    · intro row member
      have none_left : row ∈ (s.db.compacted (s.db.currentRevision + 1)).rows := member
      rw [gone] at none_left
      cases none_left
    · rw [setSession_self] at found
      cases found
  · rename_i db' logged
    obtain ⟨operations, inserted, rfl⟩ := Database.logStructural_eq_ok.mp logged
    refine of_clean rfl ?_ fun x found => ?_
    · intro row member
      cases (Table.mem_insert inserted).mp member with
      | inl old =>
        have none_left : row ∈ (s.db.compacted (s.db.currentRevision + 1)).rows := old
        rw [gone] at none_left
        cases none_left
      | inr new =>
        subst new
        exact Nat.le_refl (s.db.currentRevision + 1)
    · have none_stored : (Store.setSession s p none).sessions p = some x := found
      rw [setSession_self] at none_stored
      cases none_stored

theorem applyOperation_keeps (h : Current p s)
    (validates : File → Nat → List NormalizedCell → Bool) (call : Call) (r : Request) :
    Current p (applyOperation validates p call r s).2 := by
  have outcome := applyOperation_outcome validates p call r s
  revert outcome
  generalize applyOperation validates p call r s = result
  intro outcome
  obtain ⟨x, t, read, stored, _, current⟩ := h.materialize_eq call.now
  cases outcome with
  | unread _ _ => exact h
  | read _ _ =>
    rw [read]
    exact current
  | published _ ready published =>
    rw [read] at ready
    cases ready
    exact current.published_keeps _ published
  | appended _ ready fresh written appended =>
    rw [read] at ready
    cases ready
    exact current.appended_keeps stored fresh written appended

end Current

/-! The rebuilt file and the live copy. -/

theorem applyCells_congr {f g : File} (same : f.cells = g.cells) (sheet : Nat)
    (cells : List NormalizedCell) (revision now : Nat) :
    (applyCells f sheet cells revision now).cells = (applyCells g sheet cells revision now).cells := by
  unfold applyCells
  induction cells generalizing f g with
  | nil => exact same
  | cons cell cells ih =>
    apply ih
    have row : cellRow f sheet cell revision now = cellRow g sheet cell revision now := by
      unfold cellRow
      rw [same]
    simp only [applyNormalizedCell, row, same]

theorem replayRow_cells {f g g' : File} {row : OperationRow} (cells : f.cells = g.cells)
    (ids : f.operations.rows.map OperationRow.operationId =
      g.operations.rows.map OperationRow.operationId) (live : applyLive g row = some g') :
    ∃ f', replayRow f row = some f' ∧ f'.cells = g'.cells ∧
      f'.operations.rows.map OperationRow.operationId =
        g'.operations.rows.map OperationRow.operationId := by
  obtain ⟨written, inserted, rfl⟩ := Option.map_eq_some_iff.mp live
  obtain ⟨operations, logged, rfl⟩ := Option.map_eq_some_iff.mp inserted
  rw [applyCells_operations] at logged
  obtain ⟨fresh, rows⟩ := Table.insert_eq_some logged
  have unused : f.operations.find row.operationId = none := by
    refine Table.find_eq_none.mpr fun other member same => ?_
    have listed : row.operationId ∈ f.operations.rows.map OperationRow.operationId :=
      List.mem_map.mpr ⟨other, member, same⟩
    rw [ids] at listed
    obtain ⟨old, stored, key⟩ := List.mem_map.mp listed
    exact Table.find_eq_none.mp fresh old stored key
  let replayed : OperationRow := { row with payload := .cells row.sheet row.payload.getCells }
  rw [← applyCells_operations f row.sheet row.payload.getCells row.resultRevision row.createdAt]
    at unused
  obtain ⟨operations', logged'⟩ := Table.insert_of_fresh (r := replayed) unused
  refine ⟨{ applyCells f row.sheet row.payload.getCells row.resultRevision row.createdAt with
    operations := operations' }, Option.map_eq_some_iff.mpr ⟨operations', logged', rfl⟩,
    applyCells_congr cells .., ?_⟩
  show operations'.rows.map _ = operations.rows.map _
  rw [(Table.insert_eq_some logged').2, rows, applyCells_operations, List.map_append,
    List.map_append, ids]
  rfl

theorem replayUnflushed_cells {f g g' : File} {rows : List OperationRow} (cells : f.cells = g.cells)
    (ids : f.operations.rows.map OperationRow.operationId =
      g.operations.rows.map OperationRow.operationId) (live : applyAll g rows = some g') :
    ∃ f', replayUnflushed f rows = some f' ∧ f'.cells = g'.cells := by
  induction rows generalizing f g with
  | nil =>
    cases live
    exact ⟨f, rfl, cells⟩
  | cons row rows ih =>
    obtain ⟨next, first, live⟩ := Option.bind_eq_some_iff.mp live
    obtain ⟨f', replayed, cells', ids'⟩ := replayRow_cells cells ids first
    obtain ⟨end_file, onward, same⟩ := ih cells' ids' live
    exact ⟨end_file, Option.bind_eq_some_iff.mpr ⟨f', replayed, onward⟩, same⟩

/-- What `p` sees is the blob with the log replayed onto it. -/
def ReplaysLive (p now : Nat) (s : Store) : Prop :=
  ∀ live, (materialize p now s).1 = .ok live → ∃ file, s.db.rebuilt = some file ∧
    file.SameState live

/-- A workbook that `p` has not opened, whose blob is up to date. -/
structure Unopened (p : Nat) (s : Store) : Prop where
  flushed : s.db.currentRevision = s.db.blobRevision
  logged : ∀ row ∈ s.db.operations, row.resultRevision ≤ s.db.currentRevision
  closed : s.sessions p = none

def Event.AppliesAt (p : Nat) : Event → Prop
  | .apply q _ _ => q = p
  | _ => False

theorem current_of_run {validates : File → Nat → List NormalizedCell → Bool} {p : Nat}
    {s₀ s : Store} (opened : Unopened p s₀)
    (reached : Guarded (step validates) (fun _ e => e.AppliesAt p) (· = s₀) s) : Current p s := by
  refine guarded_invariant ?_ ?_ reached
  · rintro s rfl
    refine .of_clean opened.flushed opened.logged fun x stored => ?_
    rw [opened.closed] at stored
    cases stored
  · intro s e t current here next
    cases e with
    | apply q call r =>
      cases here
      cases next
      exact current.applyOperation_keeps validates call r
    | read q now => cases here
    | evict q now => cases here
    | rewrite q now mutate => cases here
    | replace q file => cases here

theorem Current.rebuilt_eq {p : Nat} {s : Store} (h : Current p s) :
    s.db.rebuilt = replayUnflushed s.db.blob s.db.unflushed := by
  unfold Database.rebuilt
  split
  · rw [h.rowsAfter_eq]
  · rename_i level
    have clean : s.db.unflushed = [] := unflushed_eq_nil fun row member =>
      (h.logged row member).trans (Nat.not_lt.mp level)
    rw [clean]
    rfl

theorem rebuilt_cells {p now : Nat} {s : Store} (h : Current p s) {live : File}
    (seen : (materialize p now s).1 = .ok live) :
    ∃ file, s.db.rebuilt = some file ∧ file.cells = live.cells := by
  obtain ⟨x, t, read, stored, same, current⟩ := h.materialize_eq now
  rw [read] at seen
  cases seen
  have file := (current.live x stored).2
  rw [h.rebuilt_eq, ← same]
  exact replayUnflushed_cells rfl rfl file

/-- A process that opens the workbook reads the cells of the live copy, flushed or not. -/
theorem readers_agree_on_cells {validates : File → Nat → List NormalizedCell → Bool} {p q : Nat}
    {s₀ s : Store} (opened : Unopened p s₀)
    (reached : Guarded (step validates) (fun _ e => e.AppliesAt p) (· = s₀) s)
    (cold : s.sessions q = none) (now : Nat) : ∃ live seen,
    (materialize p now s).1 = .ok live ∧ (materialize q now s).1 = .ok seen ∧
      seen.cells = live.cells := by
  have h := current_of_run opened reached
  obtain ⟨x, t, read, _⟩ := h.materialize_eq now
  have live : (materialize p now s).1 = .ok x.file := by rw [read]
  obtain ⟨file, rebuilt, same⟩ := rebuilt_cells h live
  refine ⟨x.file, file, live, ?_, same⟩
  unfold materialize
  rw [cold, rebuilt]
  rfl

/-- The rebuilt file is the live copy exactly when there is nothing to replay. -/
theorem replays_live_iff {validates : File → Nat → List NormalizedCell → Bool} {p : Nat}
    {s₀ s : Store} (opened : Unopened p s₀)
    (reached : Guarded (step validates) (fun _ e => e.AppliesAt p) (· = s₀) s) (now : Nat) :
    ReplaysLive p now s ↔ s.db.currentRevision = s.db.blobRevision := by
  have h := current_of_run opened reached
  obtain ⟨x, t, read, stored, same, current⟩ := h.materialize_eq now
  have file := (current.live x stored).2
  rw [same] at file
  have seen : (materialize p now s).1 = .ok x.file := by rw [read]
  constructor
  · intro replays
    apply h.gap
    cases rows : s.db.unflushed with
    | nil => rfl
    | cons row later =>
      obtain ⟨rebuilt, eq, agree⟩ := replays x.file seen
      rw [h.rebuilt_eq] at eq
      rw [rows] at file
      have written := h.written row (rows ▸ List.mem_cons_self)
      refine absurd ?_ (applyAll_statistics_ne written file)
      rw [← agree.statistics, replayUnflushed_statistics eq]
  · intro level live here
    rw [seen] at here
    cases here
    have clean : s.db.unflushed = [] := unflushed_eq_nil (level ▸ h.logged)
    rw [clean] at file
    have blob : s.db.blob = x.file := Option.some.inj file
    refine ⟨x.file, ?_, rfl, rfl, rfl, rfl⟩
    rw [h.rebuilt_eq, clean, blob]
    rfl

theorem unopened_emptyLedger : Unopened 0 emptyLedger := ⟨rfl, nofun, rfl⟩

theorem afterFirst_reached :
    Guarded (step every) (fun _ e => e.AppliesAt 0) (· = emptyLedger) afterFirst :=
  .step (a := .apply 0 firstCall (setDigit '7')) (.start rfl) rfl rfl

theorem readers_agree_after_first : ∃ live seen, (materialize 0 1 afterFirst).1 = .ok live ∧
    (materialize 1 1 afterFirst).1 = .ok seen ∧ seen.cells = live.cells :=
  readers_agree_on_cells unopened_emptyLedger afterFirst_reached rfl 1

/-- One set_cell: the replayed copy has no statistics for its column. -/
theorem replay_misses_statistics : ¬ ∀ (validates : File → Nat → List NormalizedCell → Bool)
    (p now : Nat) (s₀ s : Store), Unopened p s₀ →
      Guarded (step validates) (fun _ e => e.AppliesAt p) (· = s₀) s → ReplaysLive p now s := by
  intro law
  have replays := law every 0 0 emptyLedger afterFirst unopened_emptyLedger afterFirst_reached
  have live : ((materialize 0 0 afterFirst).1.toOption.map fun f => f.statistics.rows) =
      some [⟨1, 0, 1⟩] := by decide
  have rebuilt : (afterFirst.db.rebuilt.map fun f => f.statistics.rows) = some [] := by decide
  cases seen : (materialize 0 0 afterFirst).1 with
  | error e =>
    rw [seen] at live
    cases live
  | ok file =>
    obtain ⟨replayed, eq, agree⟩ := replays file seen
    rw [eq, Option.map_some, agree.statistics] at rebuilt
    rw [seen] at live
    have rows : file.statistics.rows = [⟨1, 0, 1⟩] := Option.some.inj live
    rw [rows] at rebuilt
    cases rebuilt

/-- The second operation comes two seconds later, and flushes both. -/
theorem flushed_replays_live : ReplaysLive 0 2001 (afterSecond 2000) := by
  have reached : Guarded (step every) (fun _ e => e.AppliesAt 0) (· = emptyLedger)
      (afterSecond 2000) :=
    .step (a := .apply 0 (secondCall 2000) (setDigit '8')) afterFirst_reached rfl rfl
  exact (replays_live_iff unopened_emptyLedger reached 2001).mpr (by decide)

end Plexichat.Sum
