import Plexichat.Library.Interleaving
import Plexichat.Sum.Ledger

/-! suite/sum with several worker processes on one workbook, statement by statement. The row of
the workbook, its blob and its log are shared; a live session belongs to one process, whose
threads take its lock in turn. -/
namespace Plexichat.Sum

structure Workers (W : Type) extends Ledger where
  sessions : W → Option Live
  locked : W → Bool

inductive Job where
  | operation (call : Call) (r : Request)
  /-- Downloads, snapshots and viewports. -/
  | read
  /-- `_evict_sessions`, for this workbook. -/
  | evict
  /-- `_mutate_file` and the other users of `_write_file_revision`. sort_range compares a base
  revision first. -/
  | rewrite (base : Option Nat) (mutate : File → Except Error File)

/-- A whole file on its way to `_publish_revision`, and the revision its data was read at. A
structural operation comes with its band and its row. -/
structure Draft where
  file : File
  read : Nat
  log : Option (Band × OperationRow)

def Draft.write (d : Draft) : Write :=
  match d.log with
  | some (b, row) => .structural b row
  | none => .rewrite d.file.contents

inductive Answer where
  | failed (e : Error)
  | replied (reply : Reply)
  /-- What a materialisation gave, and the current revision at that moment. -/
  | read (file : File) (revision : Nat)
  /-- The revision that the file was published over. -/
  | published (base : Nat)
  | evicted

inductive Phase where
  | start
  | located (current : Nat)
  | waiting (second : Bool)
  | holding (second : Bool)
  | fetching (second : Bool) (blobRevision current : Nat) (blob : File)
  | materialized (second : Bool) (current : Nat)
  | checked (current : Nat) (cells : List NormalizedCell)
  | applied
  | stamping (x : Live) (revision : Nat)
  | computed (d : Draft)
  | publishing (d : Draft) (base : Nat)
  | logging (b : Band) (row : OperationRow)
  | dropping (base : Nat)
  | done (a : Answer)

structure Thread (W : Type) where
  worker : W
  job : Job
  phase : Phase

def Phase.holds : Phase → Bool
  | .holding _ | .fetching .. | .materialized .. | .checked .. | .applied | .stamping ..
  | .logging .. => true
  | .computed d | .publishing d _ => d.log.isSome
  | _ => false

def Job.answer : Job → Answer
  | .operation call _ => .replied ⟨call.baseRevision + 1, false⟩
  | _ => .evicted

def Job.flushed (x : Live) (revision now : Nat) : Job → Option Live
  | .evict => none
  | _ => some { x with loadedBlobRevision := revision, pending := 0, lastFlushMs := now }

namespace Workers

variable {W : Type}

def begin (s : Workers W) : Job → Phase
  | .operation call r =>
    match checkRequest call r with
    | .error e => .done (.failed e)
    | .ok () => .located s.db.currentRevision
  | .rewrite (some base) _ =>
    if base = s.db.currentRevision then .waiting false else .done (.failed revisionConflict)
  | _ => .waiting false

def locate (s : Workers W) (current : Nat) : Job → Phase
  | .operation call _ =>
    match s.db.operations.find call.operationId with
    | some row => .done (.replied ⟨row.resultRevision, true⟩)
    | none =>
      if call.baseRevision = current then .waiting false else .done (.failed revisionConflict)
  | _ => .waiting false

def record (s : Workers W) (db : Database File) (revision : Nat) (w : Write) : Workers W :=
  { s with db, history := s.history ++ [(revision, w)] }

section Sessions

variable [DecidableEq W]

def withSession (s : Workers W) (w : W) (x : Option Live) : Workers W :=
  { s with sessions := Function.update s.sessions w x }

def withLock (s : Workers W) (w : W) (held : Bool) : Workers W :=
  { s with locked := Function.update s.locked w held }

def release (s : Workers W) (w : W) (a : Answer) : Workers W × Phase :=
  (s.withLock w false, .done a)

/-- `_materialized_connection_unlocked` up to its blob: one read of the workbook's row. -/
def openSession (s : Workers W) (w : W) (second : Bool) (now : Nat) : Workers W × Phase :=
  match (s.sessions w).filter fun x => x.loadedBlobRevision = s.db.blobRevision with
  | some _ => (s, .materialized second s.db.currentRevision)
  | none =>
    if s.db.blobRevision < s.db.currentRevision then
      (s.withSession w none,
        .fetching second s.db.blobRevision s.db.currentRevision s.db.blob)
    else
      (s.withSession w (some ⟨⟨s.db.blob, s.db.blobRevision, 0, now⟩, s.db.currentRevision⟩),
        .materialized second s.db.currentRevision)

/-- `_replay_unflushed`: one read of the log, onto the blob of the row that was read. -/
def replayLog (s : Workers W) (w : W) (second : Bool) (blobRevision current : Nat) (blob : File)
    (now : Nat) : Workers W × Phase :=
  match replayUnflushed blob (s.db.rowsAfter blobRevision) with
  | none => s.release w (.failed .integrity)
  | some file =>
    (s.withSession w (some ⟨⟨file, blobRevision, current - blobRevision, now⟩,
      s.db.currentRevision⟩), .materialized second s.db.currentRevision)

def document (s : Workers W) (file : File) : Document :=
  ⟨s.db.ownerId, s.db.currentRevision, file, s.db.ranges⟩

/-- `_apply_structural_operation` up to its publication. -/
def structural (s : Workers W) (w : W) (call : Call) (r : Request) (file : File) (current : Nat) :
    Workers W × Phase :=
  match anchorBand r.type r.sheet r.cells with
  | .error e => s.release w (.failed e)
  | .ok b =>
    match applyStructural call.user b (call.structuralRow r b call.baseRevision)
        (s.document file) with
    | .error e => s.release w (.failed e)
    | .ok d =>
      (s, .computed ⟨d.file, current, some (b, call.structuralRow r b call.baseRevision)⟩)

/-- The first critical section of apply_operation, and `_normalize_cells` after it. -/
def firstSection (s : Workers W) (w : W) (call : Call) (r : Request) (file : File)
    (current : Nat) : Workers W × Phase :=
  match file.operations.find call.operationId with
  | some row => s.release w (.replied ⟨row.resultRevision, true⟩)
  | none =>
    if r.type.structural then s.structural w call r file current
    else
      match normalizeCells r.type r.cells with
      | .error e => s.release w (.failed e)
      | .ok _ => (s.withLock w false, .waiting true)

def drafted (mutate : File → Except Error File) (file : File) (current : Nat) : Phase :=
  match mutate file with
  | .error e => .done (.failed e)
  | .ok file => .computed ⟨file, current, none⟩

def applyInMemory (s : Workers W) (w : W) (row : OperationRow) : Workers W × Phase :=
  match s.sessions w with
  | none => (s, .applied)
  | some x =>
    match applyLive x.file row with
    | none => (s.withSession w none).release w (.failed couldNotUpdate)
    | some file => (s.withSession w (some { x with
        file
        pending := x.pending + 1
        revision := row.resultRevision }), .applied)

def append (s : Workers W) (w : W) (row : OperationRow) : Workers W × Phase :=
  match s.db.appendOpDurable row with
  | .error e => s.release w (.failed e)
  | .ok db => (s.record db row.resultRevision (.operation row)).applyInMemory w row

/-- `_maybe_flush` up to the revision that `_flush_session_unlocked` reads. -/
def maybeFlush (s : Workers W) (w : W) (a : Answer) (now : Nat) : Workers W × Phase :=
  match s.sessions w with
  | none => s.release w a
  | some x =>
    if x.pending < maxFlushOps ∧ now - x.lastFlushMs < maxFlushMs then s.release w a
    else (s, .stamping x s.db.currentRevision)

/-- The transaction of `_flush_session_unlocked`. -/
def stamp (s : Workers W) (w : W) (job : Job) (x : Live) (revision now : Nat) :
    Workers W × Phase :=
  match s.db.flush x.loadedBlobRevision revision x.file with
  | .error _ => (s.withSession w none).release w job.answer
  | .ok db => (withSession { s with db } w (job.flushed x revision now)).release w job.answer

def evictSession (s : Workers W) (w : W) : Workers W × Phase :=
  match s.sessions w with
  | none => s.release w .evicted
  | some x =>
    if 0 < x.pending then (s.withSession w none, .stamping x s.db.currentRevision)
    else (s.withSession w none).release w .evicted

/-- `_publish_revision`; a structural operation still holds the lock when it drops the session. -/
def publish (s : Workers W) (w : W) (d : Draft) (base : Nat) : Workers W × Phase :=
  match s.db.publishRevision base (base + 1) d.file, d.log with
  | .error e, some _ => s.release w (.failed e)
  | .error e, none => (s, .done (.failed e))
  | .ok db, some (b, row) =>
    ((s.record db (base + 1) d.write).withSession w none,
      .logging b { row with resultRevision := base + 1 })
  | .ok db, none => (s.record db (base + 1) d.write, .dropping base)

def finishStructural (s : Workers W) (w : W) (b : Band) (row : OperationRow) :
    Workers W × Phase :=
  match s.db.logStructural row with
  | .error e => s.release w (.failed e)
  | .ok db => release { s with db := { db with ranges := shiftRangePermissions db.ranges b } } w
      (.replied ⟨row.resultRevision, false⟩)

section Steps

variable (validates : File → Nat → List NormalizedCell → Bool)

def secondSection (s : Workers W) (w : W) (call : Call) (r : Request) (file : File)
    (current : Nat) : Workers W × Phase :=
  match normalizeCells r.type r.cells with
  | .error e => s.release w (.failed e)
  | .ok cells =>
    match checkCells validates call.user r.sheet cells (s.document file) with
    | .error e => s.release w (.failed e)
    | .ok () => (s, .checked current cells)

def use (s : Workers W) (w : W) (job : Job) (second : Bool) (current : Nat) : Workers W × Phase :=
  match s.sessions w, job with
  | none, _ => s.release w (.failed couldNotUpdate)
  | some _, .evict => s.release w .evicted
  | some x, .read => s.release w (.read x.file current)
  | some x, .rewrite _ mutate => (s.withLock w false, drafted mutate x.file current)
  | some x, .operation call r =>
    if second then s.secondSection validates w call r x.file current
    else s.firstSection w call r x.file current

def advance (s : Workers W) (t : Thread W) (now : Nat) : Option (Workers W × Phase) :=
  match t.phase, t.job with
  | .start, job => some (s, s.begin job)
  | .located current, job => some (s, s.locate current job)
  | .waiting second, _ =>
    if s.locked t.worker then none else some (s.withLock t.worker true, .holding second)
  | .holding _, .evict => some (s.evictSession t.worker)
  | .holding second, _ => some (s.openSession t.worker second now)
  | .fetching second blobRevision current blob, _ =>
    some (s.replayLog t.worker second blobRevision current blob now)
  | .materialized second current, job => some (s.use validates t.worker job second current)
  | .checked _ cells, .operation call r => some (s.append t.worker (call.cellsRow r cells))
  | .checked .., _ => none
  | .applied, job => some (s.maybeFlush t.worker job.answer now)
  | .stamping x revision, job => some (s.stamp t.worker job x revision now)
  | .computed d, _ => some (s, .publishing d s.db.currentRevision)
  | .publishing d base, _ => some (s.publish t.worker d base)
  | .logging b row, _ => some (s.finishStructural t.worker b row)
  | .dropping base, _ =>
    if s.locked t.worker then none
    else some (s.withSession t.worker none, .done (.published base))
  | .done _, _ => none

def next (s : Workers W) (t : Thread W) (now : Nat) : Option (Workers W × Thread W) :=
  (s.advance validates t now).map fun r => (r.1, { t with phase := r.2 })

end Steps

end Sessions

end Workers

structure Untouched {W ι : Type} (original : File)
    (s : Interleaving.State ι (Workers W) (Thread W)) : Prop where
  blob : s.shared.db.blob = original
  flushed : s.shared.db.currentRevision = s.shared.db.blobRevision
  logged : ∀ row ∈ s.shared.db.operations, row.resultRevision ≤ s.shared.db.currentRevision
  closed : ∀ w, s.shared.sessions w = none
  fresh : s.shared.history = []
  starting : ∀ i, (s.pc i).phase = .start

end Plexichat.Sum
