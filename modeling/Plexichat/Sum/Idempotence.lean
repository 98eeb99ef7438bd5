import Plexichat.Sum.Operations

/-! Whether an accepted operation can be retried. The id check of apply_operation reads the log
of the main database, which flushes and full-file writes compact. -/
namespace Plexichat.Sum
open Transition

/-- The log keeps no row of `o` that it did not have, and the revision does not go back. -/
def Database.KeepsId (o : List Char) (db db' : Database File) : Prop :=
  db.currentRevision ≤ db'.currentRevision ∧
    ∀ row, db'.operations.find o = some row → db.operations.find o = some row

namespace Database.KeepsId

variable {o : List Char} {db db' : Database File}

theorem refl (o : List Char) (db : Database File) : db.KeepsId o db := ⟨le_rfl, fun _ h => h⟩

theorem trans {db'' : Database File} (h : db.KeepsId o db') (k : db'.KeepsId o db'') :
    db.KeepsId o db'' := ⟨h.1.trans k.1, fun row found => h.2 row (k.2 row found)⟩

theorem of_compacted {revision : Nat} (grows : db.currentRevision ≤ db'.currentRevision)
    (log : db'.operations = db.compacted revision) : db.KeepsId o db' := by
  refine ⟨grows, fun row found => ?_⟩
  rw [log, Database.compacted, Table.find_delete, Option.filter_eq_some_iff] at found
  exact found.1

theorem of_flush {loaded revision : Nat} {file : File} (h : db.flush loaded revision file = .ok db') :
    db.KeepsId o db' := by
  obtain ⟨_, rfl⟩ := Database.flush_eq_ok.mp h
  exact of_compacted le_rfl rfl

theorem of_publish {file : File}
    (h : db.publishRevision db.currentRevision (db.currentRevision + 1) file = .ok db') :
    db.KeepsId o db' := by
  obtain ⟨_, rfl⟩ := Database.publishRevision_eq_ok.mp h
  exact of_compacted (Nat.le_succ _) rfl

theorem of_insert {r : OperationRow} (other : r.operationId ≠ o)
    (grows : db.currentRevision ≤ db'.currentRevision)
    (h : db.operations.insert r = some db'.operations) : db.KeepsId o db' := by
  refine ⟨grows, fun found_row found => ?_⟩
  rw [Table.find_insert h, if_neg other] at found
  exact found

theorem of_append {call : Call} {r : Request} {cells : List NormalizedCell}
    (other : call.operationId ≠ o) (h : db.appendOpDurable (call.cellsRow r cells) = .ok db') :
    db.KeepsId o db' := by
  obtain ⟨current, operations, inserted, rfl⟩ := Database.appendOpDurable_eq_ok.mp h
  refine of_insert (r := call.cellsRow r cells) other ?_ inserted
  rw [current]
  exact Nat.le_succ _

end Database.KeepsId

/-! What every step keeps, whoever takes it, as long as nobody reuses `o`. -/

section Steps

variable {o : List Char} {s t : Store} {p now : Nat}

theorem flushSession_keeps {x : Session File} (h : flushSession p now x s = some t) :
    s.db.KeepsId o t.db := by
  unfold flushSession at h
  split at h
  · cases h
  · rename_i db flushed
    cases h
    exact .of_flush flushed

theorem maybeFlush_keeps (o : List Char) (p now : Nat) (s : Store) :
    s.db.KeepsId o (maybeFlush p now s).db := by
  unfold maybeFlush
  split
  · exact .refl o _
  · rename_i x _
    split
    · exact .refl o _
    · cases flushed : flushSession p now x s with
      | none => exact .refl o _
      | some t => exact flushSession_keeps flushed

theorem publish_keeps {file : File} (h : publish p file s = .ok t) : s.db.KeepsId o t.db := by
  unfold publish at h
  split at h
  · cases h
  · rename_i db published
    cases h
    exact .of_publish published

theorem finishStructural_keeps {r : OperationRow} (other : r.operationId ≠ o)
    (ranges : List RangePermission) (s : Store) :
    s.db.KeepsId o (finishStructural r ranges s).2.db := by
  unfold finishStructural
  split
  · exact .refl o _
  · rename_i db logged
    obtain ⟨operations, inserted, rfl⟩ := Database.logStructural_eq_ok.mp logged
    exact .of_insert other le_rfl inserted

theorem applyToSession_keeps (o : List Char) (p now : Nat) (file : File) (row : OperationRow)
    (s : Store) : s.db.KeepsId o (applyToSession p now file row s).2.db := by
  unfold applyToSession
  split
  · exact .refl o _
  · rename_i live _
    exact maybeFlush_keeps o p now
      (s.setSession p ((s.sessions p).map fun x => { x with file := live, pending := x.pending + 1 }))

theorem applyOperation_keeps {validates : File → Nat → List NormalizedCell → Bool} {call : Call}
    (other : call.operationId ≠ o) (r : Request) (s : Store) :
    s.db.KeepsId o (applyOperation validates p call r s).2.db := by
  have outcome := applyOperation_outcome validates p call r s
  revert outcome
  generalize applyOperation validates p call r s = result
  intro outcome
  cases outcome with
  | unread x _ => exact .refl o _
  | read x _ =>
    rw [materialize_db]
    exact .refl o _
  | published start ready published =>
    rename_i file t b d db
    have same : s.db = t.db := by rw [← materialize_db p call.now s, ready]
    rw [same]
    have finished := finishStructural_keeps (r := call.structuralRow r b t.db.currentRevision)
      other d.ranges (Store.setSession { t with db } p none)
    exact (Database.KeepsId.of_publish published).trans finished
  | appended start ready fresh written appended =>
    rename_i file t cells db
    have same : s.db = t.db := by rw [← materialize_db p call.now s, ready]
    rw [same]
    have applied := applyToSession_keeps o p call.now file (call.cellsRow r cells) { t with db }
    exact (Database.KeepsId.of_append other appended).trans applied

/-- The event is not an operation under the id `o`. -/
def Event.Avoids (o : List Char) : Event → Prop
  | .apply _ call _ => call.operationId ≠ o
  | _ => True

theorem step_keeps {validates : File → Nat → List NormalizedCell → Bool} {e : Event}
    (avoids : e.Avoids o) (h : step validates s e = some t) : s.db.KeepsId o t.db := by
  cases e with
  | apply p call r =>
    cases h
    exact applyOperation_keeps avoids r s
  | read p now =>
    cases h
    rw [materialize_db]
    exact .refl o _
  | evict p now =>
    cases h
    unfold evict
    split
    · exact .refl o _
    · rename_i x _
      split
      · cases flushed : flushSession p now x s with
        | none => exact .refl o _
        | some t =>
          have kept : s.db.KeepsId o t.db := flushSession_keeps flushed
          exact kept
      · exact .refl o _
  | rewrite p now mutate =>
    cases h
    have same : (materialize p now s).2.db = s.db := materialize_db p now s
    unfold rewrite
    split
    · rename_i read
      rw [read] at same
      exact same ▸ .refl o _
    · rename_i read
      rw [read] at same
      split
      · exact same ▸ .refl o _
      · split
        · exact same ▸ .refl o _
        · rename_i published
          exact same ▸ publish_keeps published
  | replace p file =>
    cases h
    unfold replace
    split
    · exact .refl o _
    · rename_i published
      exact publish_keeps published

end Steps

section Retry

variable {validates : File → Nat → List NormalizedCell → Bool} {p : Nat} {call : Call}
  {r : Request} {s s₁ : Store} {revision : Nat}

theorem checkRequest_of_accepted
    (accepted : applyOperation validates p call r s = (.ok ⟨revision, false⟩, s₁)) :
    checkRequest call r = .ok () := by
  unfold applyOperation at accepted
  split at accepted
  · cases accepted
  · assumption

theorem accepted_row (accepted : applyOperation validates p call r s = (.ok ⟨revision, false⟩, s₁)) :
    revision = call.baseRevision + 1 ∧ revision ≤ s₁.db.currentRevision ∧
      ∀ row, s₁.db.operations.find call.operationId = some row → row.resultRevision = revision := by
  have outcome := applyOperation_outcome validates p call r s
  rw [accepted] at outcome
  generalize ended : ((.ok ⟨revision, false⟩ : Except Error Reply), s₁) = result at outcome
  cases outcome with
  | unread x rejected =>
    cases ended
    cases rejected
  | read x rejected =>
    cases ended
    cases rejected
  | published start ready published =>
    rename_i file t b d db
    have same : s.db = t.db := by rw [← materialize_db p call.now s, ready]
    unfold finishStructural at ended
    split at ended
    · cases ended
    · rename_i db' logged
      cases ended
      obtain ⟨_, rfl⟩ := Database.publishRevision_eq_ok.mp published
      obtain ⟨operations, inserted, rfl⟩ := Database.logStructural_eq_ok.mp logged
      refine ⟨?_, le_rfl, fun row found => ?_⟩
      · rw [start, same]
        rfl
      · have own : some (call.structuralRow r b t.db.currentRevision) = some row :=
          (Table.find_inserted inserted).symm.trans found
        cases own
        rfl
  | appended start ready fresh written appended =>
    rename_i file t cells db
    have later := applyToSession_keeps call.operationId p call.now file (call.cellsRow r cells)
      { t with db }
    rw [← ended] at later
    obtain ⟨current, operations, inserted, rfl⟩ := Database.appendOpDurable_eq_ok.mp appended
    have answer : revision = (call.cellsRow r cells).resultRevision := by
      unfold applyToSession at ended
      split at ended
      · cases ended
      · cases ended
        rfl
    refine ⟨answer, answer ▸ later.1, fun row found => ?_⟩
    have own : some (call.cellsRow r cells) = some row :=
      (Table.find_inserted inserted).symm.trans (later.2 row found)
    cases own
    exact answer.symm

/-- An accepted operation, tried again after other steps, is answered as before exactly when the
log of the main database still has its row. -/
theorem retry_replays_iff
    (accepted : applyOperation validates p call r s = (.ok ⟨revision, false⟩, s₁)) {s₂ : Store}
    (later : Guarded (step validates) (fun _ e => e.Avoids call.operationId) (· = s₁) s₂)
    (q now : Nat) :
    applyOperation validates q { call with now } r s₂ = (.ok ⟨revision, true⟩, s₂) ↔
      (s₂.db.operations.find call.operationId).isSome = true := by
  obtain ⟨base, reached, own⟩ := accepted_row accepted
  have kept : s₁.db.KeepsId call.operationId s₂.db := by
    refine guarded_invariant (I := fun s => s₁.db.KeepsId call.operationId s.db) ?_ ?_ later
    · rintro s rfl
      exact .refl _ _
    · intro s e t soFar avoids next
      exact soFar.trans (step_keeps avoids next)
  have valid : checkRequest { call with now } r = .ok () := by
    have checked : checkRequest call r = .ok () := checkRequest_of_accepted accepted
    exact checked
  unfold applyOperation
  rw [valid]
  cases found : s₂.db.operations.find call.operationId with
  | some row =>
    have same : row.resultRevision = revision := own row (kept.2 row found)
    exact iff_of_true (congrArg (fun n => ((.ok ⟨n, true⟩ : Except Error Reply), s₂)) same) rfl
  | none =>
    have moved : call.baseRevision ≠ s₂.db.currentRevision := by
      have onward := kept.1
      omega
    refine iff_of_false ?_ Bool.false_ne_true
    simp only [if_neg moved]
    intro same
    cases same

end Retry

theorem first_accepted : applyOperation every 0 firstCall (setDigit '7') emptyLedger =
    (.ok ⟨1, false⟩, afterFirst) := rfl

theorem second_follows (now : Nat) : Guarded (step every) (fun _ e => e.Avoids firstCall.operationId)
    (· = afterFirst) (afterSecond now) := by
  have other : ['b'] ≠ ['a'] := by decide
  exact .step (a := .apply 0 (secondCall now) (setDigit '8')) (.start rfl) other rfl

/-- The second operation comes two seconds later and flushes the session. -/
theorem retry_after_flush_conflicts : ¬ ∀ (validates : File → Nat → List NormalizedCell → Bool)
    (p : Nat) (call : Call) (r : Request) (s s₁ s₂ : Store) (revision : Nat),
    applyOperation validates p call r s = (.ok ⟨revision, false⟩, s₁) →
      Guarded (step validates) (fun _ e => e.Avoids call.operationId) (· = s₁) s₂ →
        ∀ q now, applyOperation validates q { call with now } r s₂ = (.ok ⟨revision, true⟩, s₂) := by
  intro law
  have replays := law every 0 firstCall (setDigit '7') emptyLedger afterFirst (afterSecond 2000) 1
    first_accepted (second_follows 2000) 0 2000
  have refused : (applyOperation every 0 { firstCall with now := 2000 } (setDigit '7')
      (afterSecond 2000)).1.isOk = false := by decide
  rw [replays] at refused
  cases refused

/-- The second operation comes at once, and the log keeps both. -/
theorem retry_before_flush_replays :
    applyOperation every 1 { firstCall with now := 9 } (setDigit '7') (afterSecond 1) =
      (.ok ⟨1, true⟩, afterSecond 1) :=
  (retry_replays_iff first_accepted (second_follows 1) 1 9).mpr (by decide)

end Plexichat.Sum
