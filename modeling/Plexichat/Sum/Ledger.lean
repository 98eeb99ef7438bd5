import Plexichat.Sum.Contents

/-! The main database of a workbook beside the history of its writes: what the blob, the log and
a live session are to hold, and how the four transactions keep it. -/
namespace Plexichat.Sum
open Journal

structure Ledger where
  db : Database File
  /-- Every write so far, under its revision. -/
  history : List (Nat × Write)

structure Live extends Session File where
  revision : Nat

variable {original : File} {l m : Ledger}

namespace Ledger

def version (original : File) (l : Ledger) (n : Nat) : Option Contents :=
  stateAt Write.act original.contents l.history n

structure Consistent (original : File) (l : Ledger) : Prop where
  ordered : Ordered l.history l.db.currentRevision
  behind : l.db.blobRevision ≤ l.db.currentRevision
  blob : l.version original l.db.blobRevision = some l.db.blob.contents
  logged : ∀ row ∈ l.db.operations, row.resultRevision ≤ l.db.currentRevision
  unflushed : tagged l.db.unflushed = after l.history l.db.blobRevision
  whole : ∃ c, l.version original l.db.currentRevision = some c

structure Grows (original : File) (l m : Ledger) : Prop where
  current : l.db.currentRevision ≤ m.db.currentRevision
  blob : l.db.blobRevision ≤ m.db.blobRevision
  past : ∀ n ≤ l.db.currentRevision, m.version original n = l.version original n
  kept : ∀ e ∈ l.history, e ∈ m.history

theorem Grows.refl (original : File) (l : Ledger) : Grows original l l :=
  ⟨le_rfl, le_rfl, fun _ _ => rfl, fun _ h => h⟩

namespace Consistent

variable (h : l.Consistent original)
include h

theorem version_current : l.version original l.db.currentRevision =
    replay Write.act original.contents l.history := stateAt_of_bounded _ h.ordered le_rfl

theorem rowsAfter_eq : l.db.rowsAfter l.db.blobRevision = l.db.unflushed := by
  have increasing : (after l.history l.db.blobRevision).Pairwise fun a b => a.1 < b.1 :=
    h.ordered.increasing.sublist List.filter_sublist
  rw [← h.unflushed, tagged, List.pairwise_map] at increasing
  have ordered : l.db.unflushed.Pairwise fun a b => a.resultRevision ≤ b.resultRevision :=
    increasing.imp fun earlier => earlier.le
  exact ordered.insertionSort_eq

theorem replayed {file : File} {n : Nat} (snapshot : l.version original n = some file.contents)
    {rows : List OperationRow} (later : tagged rows = after l.history n) :
    (replayUnflushed file rows).map File.contents = l.version original l.db.currentRevision := by
  rw [replayUnflushed_contents, later, replay_after h.ordered.increasing snapshot,
    h.version_current]

theorem rebuilt : ∃ file, l.db.rebuilt = some file ∧
    l.version original l.db.currentRevision = some file.contents := by
  unfold Database.rebuilt
  split
  · obtain ⟨c, whole⟩ := h.whole
    have current := h.replayed h.blob h.unflushed
    rw [whole] at current
    obtain ⟨file, replays, same⟩ := Option.map_eq_some_iff.mp current
    refine ⟨file, ?_, ?_⟩
    · rw [h.rowsAfter_eq]
      exact replays
    · rw [whole, same]
  · rename_i level
    have same : l.db.currentRevision = l.db.blobRevision :=
      Nat.le_antisymm (Nat.not_lt.mp level) h.behind
    refine ⟨l.db.blob, rfl, ?_⟩
    rw [same]
    exact h.blob

end Consistent

/-! A write under the next revision. -/

section Written

variable {w : Write} (history : m.history = l.history ++ [(l.db.currentRevision + 1, w)])
include history

theorem grows_of_write (current : m.db.currentRevision = l.db.currentRevision + 1)
    (blob : l.db.blobRevision ≤ m.db.blobRevision) : Grows original l m := by
  refine ⟨current ▸ Nat.le_succ _, blob, ?_, ?_⟩
  · intro n within
    unfold version
    rw [history]
    exact stateAt_snoc_old _ (Nat.lt_succ_of_le within)
  · intro e member
    rw [history]
    exact List.mem_append_left _ member

theorem Consistent.version_of_write (h : l.Consistent original) :
    m.version original (l.db.currentRevision + 1) =
      (l.version original l.db.currentRevision).bind w.act := by
  unfold version
  rw [history]
  exact stateAt_snoc _ h.ordered (Nat.lt_succ_self _)

end Written

theorem after_tagged (rows : List OperationRow) (n : Nat) :
    after (tagged rows) n = tagged (rows.filter fun row => n < row.resultRevision) := by
  unfold after tagged
  rw [List.filter_map]
  rfl

theorem Consistent.appended (h : l.Consistent original) {row : OperationRow} {db : Database File}
    (done : l.db.appendOpDurable row = .ok db) (next : row.resultRevision = row.baseRevision + 1)
    {c d : Contents} (version : l.version original l.db.currentRevision = some c)
    (taken : (Write.operation row).act c = some d) :
    Consistent original ⟨db, l.history ++ [(row.resultRevision, .operation row)]⟩ ∧
      Grows original l ⟨db, l.history ++ [(row.resultRevision, .operation row)]⟩ := by
  obtain ⟨base, operations, inserted, rfl⟩ := Database.appendOpDurable_eq_ok.mp done
  rw [next, ← base]
  have grows : Grows original l ⟨{ l.db with currentRevision := l.db.currentRevision + 1, operations },
      l.history ++ [(l.db.currentRevision + 1, .operation row)]⟩ := grows_of_write rfl rfl le_rfl
  have later : l.db.blobRevision < l.db.currentRevision + 1 := Nat.lt_succ_of_le h.behind
  refine ⟨⟨h.ordered.snoc (Nat.lt_succ_self _), later.le, ?_, ?_, ?_, d, ?_⟩, grows⟩
  · rw [grows.past _ h.behind]
    exact h.blob
  · intro other member
    cases (Table.mem_insert inserted).mp member with
    | inl old => exact (h.logged other old).trans (Nat.le_succ _)
    | inr new => rw [new, next, ← base]
  · have rows := Current.unflushed_append inserted (by rw [next, ← base]; exact later)
    rw [next, ← base] at rows
    rw [rows, after_snoc later, ← h.unflushed]
    unfold tagged
    rw [List.map_append, List.map_singleton, next, ← base]
  · rw [h.version_of_write (m := ⟨_, _⟩) rfl, version]
    exact taken

theorem Consistent.flushed (h : l.Consistent original) {loaded revision : Nat} {file : File}
    {db : Database File} (done : l.db.flush loaded revision file = .ok db)
    (version : l.version original revision = some file.contents)
    (recent : revision ≤ l.db.currentRevision) (onward : loaded ≤ revision) :
    Consistent original ⟨db, l.history⟩ ∧ Grows original l ⟨db, l.history⟩ := by
  obtain ⟨same, rfl⟩ := Database.flush_eq_ok.mp done
  rw [← same] at onward
  refine ⟨⟨h.ordered, recent, version, ?_, ?_, h.whole⟩, le_rfl, onward, fun _ _ => rfl, fun _ e => e⟩
  · intro row member
    exact h.logged row (Table.mem_delete.mp member).1
  · have kept : (l.db.unflushed.filter fun row => revision < row.resultRevision) =
        (l.db.compacted revision).rows.filter fun row => revision < row.resultRevision := by
      unfold Database.unflushed Database.compacted Table.delete
      rw [List.filter_filter, List.filter_filter]
      refine List.filter_congr fun row _ => ?_
      rw [Bool.eq_iff_iff]
      simp only [Bool.and_eq_true, decide_eq_true_eq, Bool.not_eq_true', decide_eq_false_iff_not]
      omega
    show tagged ((l.db.compacted revision).rows.filter fun row => revision < row.resultRevision) = _
    rw [← kept, ← after_tagged, h.unflushed, after_after onward]

theorem Consistent.published (h : l.Consistent original) {base : Nat} {file : File} {w : Write}
    {db : Database File} (done : l.db.publishRevision base (base + 1) file = .ok db)
    (effect : (l.version original base).bind w.act = some file.contents) :
    Consistent original ⟨db, l.history ++ [(base + 1, w)]⟩ ∧
      Grows original l ⟨db, l.history ++ [(base + 1, w)]⟩ := by
  obtain ⟨rfl, rfl⟩ := Database.publishRevision_eq_ok.mp done
  have version := h.version_of_write (m := ⟨l.db, l.history ++ [(l.db.currentRevision + 1, w)]⟩) rfl
  rw [effect] at version
  have ordered : Ordered (l.history ++ [(l.db.currentRevision + 1, w)]) (l.db.currentRevision + 1) :=
    h.ordered.snoc (Nat.lt_succ_self _)
  refine ⟨⟨ordered, le_rfl, version, ?_, ?_, _, version⟩,
    grows_of_write rfl rfl (h.behind.trans (Nat.le_succ _))⟩
  · intro row member
    exact (h.logged row (Table.mem_delete.mp member).1).trans (Nat.le_succ _)
  · rw [after_of_bounded ordered le_rfl]
    refine List.map_eq_nil_iff.mpr (unflushed_eq_nil fun row member => ?_)
    exact (h.logged row (Table.mem_delete.mp member).1).trans (Nat.le_succ _)

theorem Consistent.finished (h : l.Consistent original) {row : OperationRow} {db : Database File}
    (done : l.db.logStructural row = .ok db) (published : row.resultRevision ≤ l.db.blobRevision)
    (ranges : List RangePermission) : Consistent original ⟨{ db with ranges }, l.history⟩ ∧
      Grows original l ⟨{ db with ranges }, l.history⟩ := by
  obtain ⟨operations, inserted, rfl⟩ := Database.logStructural_eq_ok.mp done
  refine ⟨⟨h.ordered, h.behind, h.blob, ?_, ?_, h.whole⟩, le_rfl, le_rfl, fun _ _ => rfl, fun _ e => e⟩
  · intro other member
    cases (Table.mem_insert inserted).mp member with
    | inl old => exact h.logged other old
    | inr new => exact new ▸ published.trans h.behind
  · rw [← h.unflushed]
    show tagged (operations.rows.filter _) = tagged (l.db.operations.rows.filter _)
    rw [(Table.insert_eq_some inserted).2, List.filter_append,
      List.filter_cons_of_neg (by simpa using published), List.filter_nil, List.append_nil]

end Ledger

/-! A live session. -/

structure Live.Faithful (original : File) (l : Ledger) (x : Live) : Prop where
  file : l.version original x.revision = some x.file.contents
  recent : x.revision ≤ l.db.currentRevision
  loaded : x.loadedBlobRevision ≤ x.revision

theorem Live.Faithful.mono {x : Live} (h : x.Faithful original l) (grows : l.Grows original m) :
    x.Faithful original m :=
  ⟨(grows.past _ h.recent).trans h.file, h.recent.trans grows.current, h.loaded⟩

end Plexichat.Sum
