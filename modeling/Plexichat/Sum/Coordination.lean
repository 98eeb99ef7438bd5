import Plexichat.Sum.Workers

/-! What every thread on a workbook relies on while the others move, and what a statement has
to do for that. -/
namespace Plexichat.Sum

variable {W : Type} {original : File} {l m : Ledger} {job : Job}

def Ledger.Records (l : Ledger) (revision : Nat) (id : List Char) : Prop :=
  ∃ w, (revision, w) ∈ l.history ∧ w.operationId = some id

namespace Job

structure Ready (original : File) (l : Ledger) (second : Bool) (job : Job) : Prop where
  based : ∀ call r, job = .operation call r → call.baseRevision ≤ l.db.currentRevision
  unused : second = true → ∀ call r, job = .operation call r →
    ∃ n, call.baseRevision ≤ n ∧ n ≤ l.db.currentRevision ∧
      ∀ c, l.version original n = some c → call.operationId ∉ c.ids

structure Loaded (original : File) (l : Ledger) (second : Bool) (n : Nat) (job : Job) : Prop
    extends Ready original l second job where
  recent : n ≤ l.db.currentRevision
  since : ∀ call r, job = .operation call r → call.baseRevision ≤ n

def Recorded (l : Ledger) (job : Job) : Prop :=
  ∀ call r, job = .operation call r → l.Records (call.baseRevision + 1) call.operationId

/-- The file that was published over `base` is the mutation of all that was there. -/
structure Published (original : File) (l : Ledger) (base : Nat) (job : Job) : Prop where
  past : base < l.db.currentRevision
  whole : ∀ b mutate, job = .rewrite b mutate → ∃ file published,
    l.version original base = some file.contents ∧ mutate file = .ok published ∧
      (base + 1, Write.rewrite published.contents) ∈ l.history

end Job

structure Draft.Drawn (original : File) (l : Ledger) (job : Job) (d : Draft) : Prop where
  recent : d.read ≤ l.db.currentRevision
  effect : (l.version original d.read).bind d.write.act = some d.file.contents
  mutated : ∀ b mutate, job = .rewrite b mutate → d.log = none ∧ ∃ file,
    l.version original d.read = some file.contents ∧ mutate file = .ok d.file
  named : ∀ call r, job = .operation call r → d.write.operationId = some call.operationId

def Answer.Holds (original : File) (l : Ledger) (job : Job) : Answer → Prop
  | .replied reply => reply.replayed = false →
    ∀ call r, job = .operation call r → l.Records reply.revision call.operationId
  | .read file n => n ≤ l.db.currentRevision ∧ l.version original n = some file.contents
  | .published base => job.Published original l base
  | _ => True

def Phase.Valid (original : File) (l : Ledger) (job : Job) : Phase → Prop
  | .start => True
  | .located current => current ≤ l.db.currentRevision
  | .waiting second | .holding second => job.Ready original l second
  | .fetching second blobRevision _ blob => job.Ready original l second ∧
    blobRevision ≤ l.db.currentRevision ∧ l.version original blobRevision = some blob.contents
  | .materialized second n => job.Loaded original l second n
  | .checked n _ => job.Loaded original l true n
  | .applied => job.Recorded l
  | .stamping x revision => job.Recorded l ∧ x.Faithful original l ∧
    revision ≤ l.db.currentRevision
  | .computed d => d.Drawn original l job
  | .publishing d base => d.Drawn original l job ∧ base ≤ l.db.currentRevision
  | .logging _ row => row.resultRevision ≤ l.db.blobRevision ∧
    ∀ call r, job = .operation call r → l.Records row.resultRevision call.operationId
  | .dropping base => job.Published original l base
  | .done a => a.Holds original l job

def Phase.loaded : Phase → Option Nat
  | .materialized _ n | .checked n _ => some n
  | _ => none

structure Thread.Valid (original : File) (s : Workers W) (t : Thread W) : Prop where
  phase : t.phase.Valid original s.toLedger t.job
  locked : t.phase.holds = true → s.locked t.worker = true
  session : ∀ n, t.phase.loaded = some n →
    ∃ x, s.sessions t.worker = some x ∧ x.revision = n

theorem Thread.Valid.standing {s : Workers W} {t : Thread W} {p : Phase} (v : t.Valid original s)
    (here : t.phase = p) : p.Valid original s.toLedger t.job := here ▸ v.phase

structure Workers.Consistent (original : File) (s : Workers W) : Prop where
  ledger : s.toLedger.Consistent original
  live : ∀ w x, s.sessions w = some x → x.Faithful original s.toLedger

/-! The writes of other threads leave all this. -/

section Mono

variable (grows : l.Grows original m)
include grows

theorem Ledger.Records.mono {revision : Nat} {id : List Char} (h : l.Records revision id) :
    m.Records revision id := by
  obtain ⟨w, member, named⟩ := h
  exact ⟨w, grows.kept _ member, named⟩

theorem Job.Ready.mono {second : Bool} (h : job.Ready original l second) :
    job.Ready original m second := by
  refine ⟨fun call r same => (h.based call r same).trans grows.current, ?_⟩
  intro again call r same
  obtain ⟨n, since, recent, unused⟩ := h.unused again call r same
  refine ⟨n, since, recent.trans grows.current, ?_⟩
  rw [grows.past n recent]
  exact unused

theorem Job.Loaded.mono {second : Bool} {n : Nat} (h : job.Loaded original l second n) :
    job.Loaded original m second n :=
  ⟨h.toReady.mono grows, h.recent.trans grows.current, h.since⟩

theorem Job.Recorded.mono (h : job.Recorded l) : job.Recorded m :=
  fun call r same => (h call r same).mono grows

theorem Job.Published.mono {base : Nat} (h : job.Published original l base) :
    job.Published original m base := by
  refine ⟨h.past.trans_le grows.current, ?_⟩
  intro b mutate same
  obtain ⟨file, published, version, mutated, member⟩ := h.whole b mutate same
  exact ⟨file, published, (grows.past base h.past.le).trans version, mutated, grows.kept _ member⟩

theorem Draft.Drawn.mono {d : Draft} (h : d.Drawn original l job) : d.Drawn original m job := by
  have same := grows.past d.read h.recent
  refine ⟨h.recent.trans grows.current, ?_, ?_, h.named⟩
  · rw [same]
    exact h.effect
  · rw [same]
    exact h.mutated

theorem Answer.Holds.mono {a : Answer} (h : a.Holds original l job) : a.Holds original m job := by
  cases a with
  | failed _ => trivial
  | replied reply => exact fun live call r same => (h live call r same).mono grows
  | read file n => exact ⟨h.1.trans grows.current, (grows.past n h.1).trans h.2⟩
  | published base => exact Job.Published.mono grows h
  | evicted => trivial

theorem Phase.Valid.mono {p : Phase} (h : p.Valid original l job) : p.Valid original m job := by
  cases p with
  | start => trivial
  | located current => exact le_trans h grows.current
  | waiting second => exact Job.Ready.mono grows h
  | holding second => exact Job.Ready.mono grows h
  | fetching second blobRevision current blob =>
    obtain ⟨ready, recent, version⟩ := h
    exact ⟨ready.mono grows, recent.trans grows.current, (grows.past _ recent).trans version⟩
  | materialized second n => exact Job.Loaded.mono grows h
  | checked n cells => exact Job.Loaded.mono grows h
  | applied => exact Job.Recorded.mono grows h
  | stamping x revision =>
    obtain ⟨recorded, faithful, recent⟩ := h
    exact ⟨recorded.mono grows, faithful.mono grows, recent.trans grows.current⟩
  | computed d => exact Draft.Drawn.mono grows h
  | publishing d base => exact ⟨Draft.Drawn.mono grows h.1, h.2.trans grows.current⟩
  | logging b row =>
    exact ⟨h.1.trans grows.blob, fun call r same => (h.2 call r same).mono grows⟩
  | dropping base => exact Job.Published.mono grows h
  | done a => exact Answer.Holds.mono grows h

end Mono

section Statements

variable [DecidableEq W] {s s' : Workers W} {t : Thread W} {p : Phase} {a : Answer}

@[simp] theorem Workers.withSession_self (s : Workers W) (w : W) (x : Option Live) :
    (s.withSession w x).sessions w = x := Function.update_self ..

theorem Workers.dropped (s : Workers W) (w : W) (x : Live)
    (found : (s.withSession w none).sessions w = some x) : x.Faithful original l := by
  rw [Workers.withSession_self] at found
  cases found

theorem Workers.withSession_other (s : Workers W) {v w : W} (other : v ≠ w) (x : Option Live) :
    (s.withSession w x).sessions v = s.sessions v := Function.update_of_ne other ..

@[simp] theorem Workers.withLock_self (s : Workers W) (w : W) (held : Bool) :
    (s.withLock w held).locked w = held := Function.update_self ..

theorem Workers.withLock_other (s : Workers W) {v w : W} (other : v ≠ w) (held : Bool) :
    (s.withLock w held).locked v = s.locked v := Function.update_of_ne other ..

structure Moved (original : File) (s : Workers W) (t : Thread W) (r : Workers W × Phase) :
    Prop where
  grows : s.toLedger.Grows original r.1.toLedger
  consistent : r.1.Consistent original
  valid : Thread.Valid original r.1 { t with phase := r.2 }
  frame : ∀ w, w ≠ t.worker ∨ t.phase.holds = false ∧ s.locked w = true →
    r.1.sessions w = s.sessions w ∧ r.1.locked w = s.locked w
  taken : r.2.holds = true → t.phase.holds = true ∨ s.locked t.worker = false

structure Workers.Beside (w : W) (s s' : Workers W) : Prop where
  sessions : ∀ v, v ≠ w → s'.sessions v = s.sessions v
  locked : ∀ v, v ≠ w → s'.locked v = s.locked v

omit [DecidableEq W] in
theorem Workers.Beside.refl (w : W) (s : Workers W) : s.Beside w s :=
  ⟨fun _ _ => rfl, fun _ _ => rfl⟩

omit [DecidableEq W] in
theorem Workers.Beside.record {w : W} (h : s.Beside w s') (db : Database File) (revision : Nat)
    (write : Write) : s.Beside w (s'.record db revision write) := ⟨h.sessions, h.locked⟩

theorem Workers.Beside.withSession {w : W} (h : s.Beside w s') (x : Option Live) :
    s.Beside w (s'.withSession w x) :=
  ⟨fun v other => (s'.withSession_other other x).trans (h.sessions v other), h.locked⟩

theorem Workers.Beside.withLock {w : W} (h : s.Beside w s') (held : Bool) :
    s.Beside w (s'.withLock w held) :=
  ⟨h.sessions, fun v other => (s'.withLock_other other held).trans (h.locked v other)⟩

theorem Moved.inside (h : s.Consistent original) (holds : t.phase.holds = true)
    (beside : s.Beside t.worker s') (grows : s.toLedger.Grows original s'.toLedger)
    (ledger : s'.toLedger.Consistent original)
    (live : ∀ x, s'.sessions t.worker = some x → x.Faithful original s'.toLedger)
    (valid : Thread.Valid original s' { t with phase := p }) : Moved original s t (s', p) := by
  refine ⟨grows, ⟨ledger, ?_⟩, valid, ?_, fun _ => .inl holds⟩
  · intro w x stored
    by_cases here : w = t.worker
    · exact live x (here ▸ stored)
    · rw [beside.sessions w here] at stored
      exact (h.live w x stored).mono grows
  · intro w apart
    cases apart with
    | inl other => exact ⟨beside.sessions w other, beside.locked w other⟩
    | inr outside =>
      rw [holds] at outside
      cases outside.1

theorem Moved.released (h : s.Consistent original) (holds : t.phase.holds = true)
    (beside : s.Beside t.worker s') (grows : s.toLedger.Grows original s'.toLedger)
    (ledger : s'.toLedger.Consistent original)
    (live : ∀ x, s'.sessions t.worker = some x → x.Faithful original s'.toLedger)
    (answer : a.Holds original s'.toLedger t.job) :
    Moved original s t (s'.release t.worker a) :=
  .inside h holds (beside.withLock false) grows ledger live ⟨answer, nofun, nofun⟩

theorem Moved.unlocked (h : s.Consistent original) (holds : t.phase.holds = true)
    (valid : p.Valid original s.toLedger t.job) (idle : p.holds = false) (away : p.loaded = none) :
    Moved original s t (s.withLock t.worker false, p) := by
  refine .inside h holds ((Workers.Beside.refl _ s).withLock false) (.refl ..) h.ledger
    (h.live t.worker) ⟨valid, ?_, ?_⟩
  · intro held
    rw [show p.holds = true from held] at idle
    cases idle
  · intro n loaded
    rw [show p.loaded = some n from loaded] at away
    cases away

omit [DecidableEq W] in
theorem Moved.stays (h : s.Consistent original) (v : t.Valid original s)
    (valid : p.Valid original s.toLedger t.job) (kept : p.holds = true → t.phase.holds = true)
    (session : ∀ n, p.loaded = some n → ∃ x, s.sessions t.worker = some x ∧ x.revision = n) :
    Moved original s t (s, p) :=
  ⟨.refl .., h, ⟨valid, fun held => v.locked (kept held), session⟩, fun _ _ => ⟨rfl, rfl⟩,
    fun held => .inl (kept held)⟩

theorem Moved.disturbs {r : Workers W × Phase} (h : Moved original s t r) {u : Thread W}
    (v : u.Valid original s) (apart : u.worker = t.worker → ¬ (u.phase.holds = true ∧
      t.phase.holds = true)) : u.Valid original r.1 := by
  have kept : u.phase.holds = true →
      r.1.sessions u.worker = s.sessions u.worker ∧ r.1.locked u.worker = s.locked u.worker := by
    intro holds
    apply h.frame
    by_cases same : u.worker = t.worker
    · refine .inr ⟨?_, v.locked holds⟩
      exact Bool.eq_false_iff.mpr fun mine => apart same ⟨holds, mine⟩
    · exact .inl same
  refine ⟨v.phase.mono h.grows, fun holds => (kept holds).2.trans (v.locked holds), ?_⟩
  intro n loaded
  have holds : u.phase.holds = true := by
    revert loaded
    cases u.phase with
    | materialized _ _ => exact fun _ => rfl
    | checked _ _ => exact fun _ => rfl
    | _ => exact nofun
  rw [(kept holds).1]
  exact v.session n loaded

end Statements

end Plexichat.Sum
