import Plexichat.Library.Journal
import Plexichat.Sum.Replay

/-! What a workbook file holds, apart from the axis metadata and the statistics, and what one
write makes of it, whether it comes live, from the log, or as a whole file. -/
namespace Plexichat.Sum
open Journal

structure Contents where
  sheets : Table Sheet Sheet.id
  cells : Table Cell Cell.key
  ids : List (List Char)

def File.contents (f : File) : Contents :=
  ⟨f.sheets, f.cells, f.operations.rows.map OperationRow.operationId⟩

def Contents.bare (c : Contents) : File := ⟨c.sheets, c.cells, .empty, .empty, .empty, .empty⟩

inductive Write where
  | operation (row : OperationRow)
  | structural (b : Band) (row : OperationRow)
  /-- `_write_file_revision` of a whole file. -/
  | rewrite (c : Contents)

def Write.operationId : Write → Option (List Char)
  | .operation row | .structural _ row => some row.operationId
  | .rewrite _ => none

def Contents.log (c : Contents) (id : List Char) (cells : Table Cell Cell.key) : Option Contents :=
  if id ∈ c.ids then none else some ⟨c.sheets, cells, c.ids ++ [id]⟩

def Write.act : Write → Contents → Option Contents
  | .operation row, c => c.log row.operationId
    (applyCells c.bare row.sheet row.payload.getCells row.resultRevision row.createdAt).cells
  | .structural b row, c => (shiftCells c.cells b).toOption.bind (c.log row.operationId)
  | .rewrite d, _ => some d

theorem find_eq_none_iff {file : File} {id : List Char} :
    file.operations.find id = none ↔ id ∉ file.contents.ids := by
  rw [Table.find_eq_none]
  show _ ↔ id ∉ file.operations.rows.map OperationRow.operationId
  rw [List.mem_map]
  exact ⟨fun h ⟨row, member, same⟩ => h row member same, fun h row member same =>
    h ⟨row, member, same⟩⟩

theorem insertOperation_contents (file : File) (row : OperationRow) :
    (insertOperation file row).map File.contents =
      file.contents.log row.operationId file.cells := by
  unfold insertOperation Contents.log
  cases found : file.operations.find row.operationId with
  | none =>
    obtain ⟨operations, inserted⟩ := Table.insert_of_fresh found
    rw [if_neg (find_eq_none_iff.mp found), inserted]
    simp only [Option.map_some, File.contents, (Table.insert_eq_some inserted).2, List.map_append]
    rfl
  | some old =>
    have known : row.operationId ∈ file.contents.ids := by
      by_contra fresh
      rw [find_eq_none_iff.mpr fresh] at found
      cases found
    rw [if_pos known, Table.insert_of_used found]
    rfl

theorem applyCells_sheets (file : File) (sheet : Nat) (cells : List NormalizedCell)
    (revision now : Nat) : (applyCells file sheet cells revision now).sheets = file.sheets := by
  unfold applyCells
  induction cells generalizing file with
  | nil => rfl
  | cons cell cells ih => exact ih _

theorem insertCells_contents (file : File) (row spelled : OperationRow)
    (same : spelled.operationId = row.operationId) :
    (insertOperation (applyCells file row.sheet row.payload.getCells row.resultRevision
      row.createdAt) spelled).map File.contents = (Write.operation row).act file.contents := by
  have cells := applyCells_congr (f := file) (g := file.contents.bare) rfl row.sheet
    row.payload.getCells row.resultRevision row.createdAt
  rw [insertOperation_contents, same]
  show _ = file.contents.log row.operationId (applyCells file.contents.bare row.sheet
    row.payload.getCells row.resultRevision row.createdAt).cells
  rw [← cells]
  unfold Contents.log File.contents
  rw [applyCells_sheets, applyCells_operations]

theorem replayRow_contents (file : File) (row : OperationRow) :
    (replayRow file row).map File.contents = (Write.operation row).act file.contents :=
  insertCells_contents file row _ rfl

theorem applyLive_contents (file : File) (row : OperationRow) :
    (applyLive file row).map File.contents = (Write.operation row).act file.contents := by
  rw [← insertCells_contents file row row rfl]
  unfold applyLive
  rw [Option.map_map]
  rfl

def tagged (rows : List OperationRow) : List (Nat × Write) :=
  rows.map fun row => (row.resultRevision, .operation row)

theorem replayUnflushed_contents (file : File) (rows : List OperationRow) :
    (replayUnflushed file rows).map File.contents =
      replay Write.act file.contents (tagged rows) := by
  induction rows generalizing file with
  | nil => rfl
  | cons row rows ih =>
    show ((replayRow file row).bind fun file => replayUnflushed file rows).map _ =
      ((Write.operation row).act file.contents).bind fun c => replay Write.act c (tagged rows)
    rw [← replayRow_contents]
    cases replayRow file row with
    | none => rfl
    | some next => exact ih next

theorem shiftAxis_kept {file file' : File} {b : Band} (h : shiftAxis file b = .ok file') :
    file'.sheets = file.sheets ∧ file'.operations = file.operations := by
  unfold shiftAxis at h
  obtain ⟨cells, _, h⟩ := bind_eq_ok.mp h
  cases axis : b.axis with
  | row =>
    rw [axis] at h
    cases h
    exact ⟨rfl, rfl⟩
  | column =>
    rw [axis] at h
    obtain ⟨statistics, _, h⟩ := bind_eq_ok.mp h
    cases h
    exact ⟨rfl, rfl⟩

theorem applyStructural_contents {user : Nat} {b : Band} {row : OperationRow} {d d' : Document}
    (h : applyStructural user b row d = .ok d') :
    (Write.structural b row).act d.file.contents = some d'.file.contents := by
  unfold applyStructural at h
  obtain ⟨⟨⟩, _, h⟩ := bind_eq_ok.mp h
  split at h
  · obtain ⟨shifted, shift, h⟩ := bind_eq_ok.mp h
    obtain ⟨file, inserted, h⟩ := bind_eq_ok.mp h
    cases h
    have entered := congrArg (Option.map File.contents) (updated_eq_ok.mp inserted)
    rw [insertOperation_contents] at entered
    have kept := shiftAxis_kept shift
    have before : d.file.contents.log row.operationId shifted.cells =
        shifted.contents.log row.operationId shifted.cells := by
      unfold Contents.log File.contents
      rw [kept.1, kept.2]
    show (shiftCells d.file.cells b).toOption.bind (d.file.contents.log row.operationId) = _
    rw [shiftAxis_cells shift]
    exact before.trans entered
  · cases h

end Plexichat.Sum
