import Plexichat.Sum.Coordination

/-! What any process rebuilds from the blob and the log of a workbook, after any number of
threads of any number of processes. A run goes wrong when a thread takes a session that other
processes have written past. -/
namespace Plexichat.Sum
open Journal Transition

variable {W : Type} {original : File} {l : Ledger} {job : Job}

section Statements

variable [DecidableEq W] {s : Workers W} {t : Thread W}

/-- The guard: a live session is not behind when it is reused, no flush comes between the two
reads of a materialisation, and a stamp and a base are the revision of the file. -/
def Thread.timely (s : Workers W) (t : Thread W) : Bool :=
  match t.phase, t.job with
  | .holding _, .evict => true
  | .holding _, _ => (s.sessions t.worker).all fun x =>
    x.loadedBlobRevision ≠ s.db.blobRevision || x.revision = s.db.currentRevision
  | .fetching _ blobRevision _ _, _ => blobRevision = s.db.blobRevision
  | .stamping x revision, _ => s.db.blobRevision ≠ x.loadedBlobRevision || x.revision = revision
  | .publishing d base, _ => s.db.currentRevision ≠ base || d.read = base
  | _, _ => true

section Each

variable (h : s.Consistent original) (v : t.Valid original s)
include h v

omit [DecidableEq W] in
theorem begin_moved : Moved original s t (s, s.begin t.job) := by
  have failed : ∀ e, Moved original s t (s, .done (.failed e)) := fun e =>
    .stays h v trivial nofun nofun
  have waits : (∀ call r, t.job ≠ .operation call r) → Moved original s t (s, .waiting false) :=
    fun other => .stays h v ⟨fun call r same => absurd same (other call r), nofun⟩ nofun nofun
  cases job : t.job with
  | operation call r =>
    unfold Workers.begin
    dsimp only
    split
    · exact failed _
    · exact .stays h v (le_refl s.db.currentRevision) nofun nofun
  | read => exact waits (by rw [job]; exact nofun)
  | evict => exact waits (by rw [job]; exact nofun)
  | rewrite base mutate =>
    have other : ∀ call r, t.job ≠ .operation call r := by
      rw [job]
      exact nofun
    cases base with
    | none => exact waits other
    | some base =>
      unfold Workers.begin
      dsimp only
      split
      · exact waits other
      · exact failed _

omit [DecidableEq W] in
theorem locate_moved {current : Nat} (here : t.phase = .located current) :
    Moved original s t (s, s.locate current t.job) := by
  have recent : current ≤ s.db.currentRevision := v.standing here
  have waits : (∀ call r, t.job = .operation call r → call.baseRevision ≤ s.db.currentRevision) →
      Moved original s t (s, .waiting false) := fun based => .stays h v ⟨based, nofun⟩ nofun nofun
  unfold Workers.locate
  split
  · rename_i call r job
    split
    · exact .stays h v nofun nofun nofun
    · split
      · rename_i same
        apply waits
        intro call' r' job'
        rw [job] at job'
        cases job'
        exact same.trans_le recent
      · exact .stays h v trivial nofun nofun
  · rename_i other
    exact waits fun call r job => absurd job (other call r)

theorem acquire_moved {second : Bool} (here : t.phase = .waiting second)
    (free : s.locked t.worker = false) :
    Moved original s t (s.withLock t.worker true, .holding second) := by
  have ready : t.job.Ready original s.toLedger second := v.standing here
  refine ⟨.refl .., ⟨h.ledger, h.live⟩, ⟨ready, fun _ => s.withLock_self t.worker true, nofun⟩, ?_,
    fun _ => .inr free⟩
  intro w apart
  have other : w ≠ t.worker := by
    cases apart with
    | inl other => exact other
    | inr held =>
      rintro rfl
      rw [free] at held
      cases held.2
  exact ⟨rfl, s.withLock_other other true⟩

theorem openSession_moved {second : Bool} (here : t.phase = .holding second)
    (timely : ∀ x, s.sessions t.worker = some x →
      x.loadedBlobRevision = s.db.blobRevision → x.revision = s.db.currentRevision) (now : Nat) :
    Moved original s t (s.openSession t.worker second now) := by
  have holds : t.phase.holds = true := by rw [here]; rfl
  have ready : t.job.Ready original s.toLedger second := v.standing here
  have loaded : t.job.Loaded original s.toLedger second s.db.currentRevision :=
    ⟨ready, le_rfl, ready.based⟩
  unfold Workers.openSession
  split
  · rename_i x live
    obtain ⟨stored, same⟩ := Option.filter_eq_some_iff.mp live
    refine .stays h v loaded (fun _ => holds) fun n current => ⟨x, stored, ?_⟩
    rw [timely x stored (of_decide_eq_true same)]
    exact Option.some.inj current
  · split
    · exact .inside h holds ((Workers.Beside.refl _ s).withSession none) (.refl ..) h.ledger
        (s.dropped t.worker)
        ⟨⟨ready, h.ledger.behind, h.ledger.blob⟩, fun _ => v.locked holds, nofun⟩
    · rename_i level
      have same : s.db.currentRevision = s.db.blobRevision :=
        Nat.le_antisymm (Nat.not_lt.mp level) h.ledger.behind
      refine .inside h holds ((Workers.Beside.refl _ s).withSession _) (.refl ..) h.ledger ?_
        ⟨loaded, fun _ => v.locked holds, fun n current => ⟨_, Workers.withSession_self .., ?_⟩⟩
      · intro x stored
        rw [Workers.withSession_self] at stored
        cases stored
        refine ⟨?_, le_rfl, h.ledger.behind⟩
        show s.toLedger.version original s.db.currentRevision = some s.db.blob.contents
        rw [same]
        exact h.ledger.blob
      · exact Option.some.inj current

theorem replayLog_moved {second : Bool} {blobRevision current : Nat} {blob : File}
    (here : t.phase = .fetching second blobRevision current blob)
    (timely : blobRevision = s.db.blobRevision) (now : Nat) :
    Moved original s t (s.replayLog t.worker second blobRevision current blob now) := by
  have holds : t.phase.holds = true := by rw [here]; rfl
  obtain ⟨ready, recent, snapshot⟩ : t.job.Ready original s.toLedger second ∧
      blobRevision ≤ s.db.currentRevision ∧
      s.toLedger.version original blobRevision = some blob.contents := v.standing here
  subst timely
  unfold Workers.replayLog
  split
  · exact .released h holds (.refl ..) (.refl ..) h.ledger (h.live t.worker) trivial
  · rename_i file replays
    rw [h.ledger.rowsAfter_eq] at replays
    have version := h.ledger.replayed snapshot h.ledger.unflushed
    rw [replays] at version
    refine .inside h holds ((Workers.Beside.refl _ s).withSession _) (.refl ..) h.ledger ?_
      ⟨⟨ready, le_rfl, ready.based⟩, fun _ => v.locked holds,
        fun n loaded => ⟨_, Workers.withSession_self .., Option.some.inj loaded⟩⟩
    intro x stored
    rw [Workers.withSession_self] at stored
    cases stored
    exact ⟨version.symm, le_rfl, recent⟩

omit v in
theorem Moved.answered (holds : t.phase.holds = true)
    (answer : a.Holds original s.toLedger t.job) : Moved original s t (s.release t.worker a) :=
  .released h holds (.refl ..) (.refl ..) h.ledger (h.live t.worker) answer

section Section

variable {n : Nat} {file : File} {call : Call} {r : Request} (holds : t.phase.holds = true)
  (version : s.toLedger.version original n = some file.contents)
  (asked : t.job = .operation call r)
include holds version asked

theorem structural_moved (recent : n ≤ s.db.currentRevision) :
    Moved original s t (s.structural t.worker call r file n) := by
  unfold Workers.structural
  split
  · exact .answered h holds trivial
  · rename_i b _
    split
    · exact .answered h holds trivial
    · rename_i d done
      refine .stays h v ⟨recent, ?_, ?_, ?_⟩ (fun _ => holds) nofun
      · rw [version]
        exact applyStructural_contents done
      · intro b mutate other
        rw [asked] at other
        cases other
      · intro call' r' same
        rw [asked] at same
        cases same
        rfl

theorem firstSection_moved (loaded : t.job.Loaded original s.toLedger false n) :
    Moved original s t (s.firstSection t.worker call r file n) := by
  unfold Workers.firstSection
  split
  · exact .answered h holds nofun
  · rename_i fresh
    split
    · exact structural_moved h v holds version asked loaded.recent
    · split
      · exact .answered h holds trivial
      · refine .unlocked h holds ⟨loaded.based, fun _ call' r' same => ?_⟩ rfl rfl
        refine ⟨n, loaded.since call' r' same, loaded.recent, fun c found => ?_⟩
        rw [asked] at same
        cases same
        rw [version] at found
        cases found
        exact find_eq_none_iff.mp fresh

omit version asked in
theorem secondSection_moved (validates : File → Nat → List NormalizedCell → Bool)
    (loaded : t.job.Loaded original s.toLedger true n)
    (session : ∃ x, s.sessions t.worker = some x ∧ x.revision = n) :
    Moved original s t (s.secondSection validates t.worker call r file n) := by
  unfold Workers.secondSection
  split
  · exact .answered h holds trivial
  · split
    · exact .answered h holds trivial
    · exact .stays h v loaded (fun _ => holds) fun m same => Option.some.inj same ▸ session

end Section

theorem use_moved (validates : File → Nat → List NormalizedCell → Bool) {second : Bool} {n : Nat}
    (here : t.phase = .materialized second n) :
    Moved original s t (s.use validates t.worker t.job second n) := by
  have holds : t.phase.holds = true := by rw [here]; rfl
  have loaded : t.job.Loaded original s.toLedger second n := v.standing here
  obtain ⟨x, stored, current⟩ := v.session n (by rw [here]; rfl)
  have version : s.toLedger.version original n = some x.file.contents :=
    current ▸ (h.live t.worker x stored).file
  unfold Workers.use
  split
  · rename_i missing
    rw [stored] at missing
    cases missing
  · exact .answered h holds trivial
  · rename_i found _
    cases stored.symm.trans found
    exact .answered h holds ⟨loaded.recent, version⟩
  · rename_i found job
    cases stored.symm.trans found
    unfold Workers.drafted
    split
    · exact .unlocked h holds trivial rfl rfl
    · rename_i b mutate _ file mutated
      refine .unlocked h holds ⟨loaded.recent, ?_, ?_, ?_⟩ rfl rfl
      · rw [version]
        rfl
      · intro b' mutate' same
        rw [job] at same
        cases same
        exact ⟨rfl, x.file, version, mutated⟩
      · intro call r same
        rw [job] at same
        cases same
  · rename_i found job
    cases stored.symm.trans found
    split
    · rename_i again
      subst again
      exact secondSection_moved h v holds validates loaded ⟨x, stored, current⟩
    · rename_i once
      rw [Bool.not_eq_true] at once
      subst once
      exact firstSection_moved h v holds version job loaded

theorem append_moved {n : Nat} {cells : List NormalizedCell} {call : Call} {r : Request}
    (here : t.phase = .checked n cells) (asked : t.job = .operation call r) :
    Moved original s t (s.append t.worker (call.cellsRow r cells)) := by
  have holds : t.phase.holds = true := by rw [here]; rfl
  have loaded : t.job.Loaded original s.toLedger true n := v.standing here
  obtain ⟨x, stored, current⟩ := v.session n (by rw [here]; rfl)
  unfold Workers.append
  split
  · exact .answered h holds trivial
  · rename_i db done
    have base : s.db.currentRevision = call.baseRevision :=
      (Database.appendOpDurable_eq_ok.mp done).1
    -- The version of the base is still the current one, and the file of the session is it.
    have level : x.revision = s.db.currentRevision := by
      have since := loaded.since call r asked
      have recent := loaded.recent
      omega
    have version : s.toLedger.version original s.db.currentRevision = some x.file.contents :=
      level ▸ (h.live t.worker x stored).file
    have unused : call.operationId ∉ x.file.contents.ids := by
      obtain ⟨k, since, recent, unused⟩ := loaded.unused rfl call r asked
      rw [show k = s.db.currentRevision by omega] at unused
      exact unused _ version
    obtain ⟨ledger, grows⟩ := h.ledger.appended done rfl version (if_neg unused)
    have written : (s.toLedger.history ++ [((call.cellsRow r cells).resultRevision,
        Write.operation (call.cellsRow r cells))]) =
        s.toLedger.history ++ [(s.db.currentRevision + 1, .operation (call.cellsRow r cells))] := by
      rw [base]
      rfl
    have beside := (Workers.Beside.refl t.worker s).record db
      (call.cellsRow r cells).resultRevision (.operation (call.cellsRow r cells))
    unfold Workers.applyInMemory
    rw [show (s.record db _ _).sessions t.worker = some x from stored]
    dsimp only
    split
    · exact .released h holds (beside.withSession none) grows ledger (Workers.dropped _ t.worker)
        trivial
    · rename_i file live
      have next : (s.record db (call.cellsRow r cells).resultRevision
          (.operation (call.cellsRow r cells))).toLedger.version original
            (call.baseRevision + 1) = some file.contents := by
        have onward := h.ledger.version_of_write
          (m := (s.record db _ (.operation (call.cellsRow r cells))).toLedger) written
        have effect := applyLive_contents x.file (call.cellsRow r cells)
        rw [live] at effect
        rw [version, base] at onward
        exact onward.trans effect.symm
      refine .inside h holds (beside.withSession _) grows ledger ?_
        ⟨?_, fun _ => v.locked holds, nofun⟩
      · intro y found
        rw [Workers.withSession_self] at found
        cases found
        refine ⟨next, ledger.ordered.bounded _ (List.mem_append_right _ List.mem_cons_self), ?_⟩
        have earlier := (h.live t.worker x stored).loaded
        show x.loadedBlobRevision ≤ call.baseRevision + 1
        omega
      · intro call' r' same
        rw [asked] at same
        cases same
        exact ⟨_, List.mem_append_right _ List.mem_cons_self, rfl⟩

omit h v in
theorem Job.Recorded.answer (recorded : job.Recorded l) : job.answer.Holds original l job := by
  cases job with
  | operation call r =>
    intro _ call' r' same
    cases same
    exact recorded call r rfl
  | _ => trivial

theorem maybeFlush_moved (here : t.phase = .applied) (now : Nat) :
    Moved original s t (s.maybeFlush t.worker t.job.answer now) := by
  have holds : t.phase.holds = true := by rw [here]; rfl
  have recorded : t.job.Recorded s.toLedger := v.standing here
  unfold Workers.maybeFlush
  split
  · exact .answered h holds recorded.answer
  · rename_i x stored
    split
    · exact .answered h holds recorded.answer
    · exact .stays h v ⟨recorded, h.live _ x stored, le_refl s.db.currentRevision⟩
        (fun _ => holds) nofun

theorem stamp_moved {x : Live} {revision : Nat} (here : t.phase = .stamping x revision)
    (timely : s.db.blobRevision = x.loadedBlobRevision → x.revision = revision) (now : Nat) :
    Moved original s t (s.stamp t.worker t.job x revision now) := by
  have holds : t.phase.holds = true := by rw [here]; rfl
  obtain ⟨recorded, faithful, recent⟩ : t.job.Recorded s.toLedger ∧
      x.Faithful original s.toLedger ∧ revision ≤ s.db.currentRevision := v.standing here
  have beside := Workers.Beside.refl t.worker s
  unfold Workers.stamp
  split
  · exact .released h holds (beside.withSession none) (.refl ..) h.ledger (s.dropped t.worker)
      recorded.answer
  · rename_i db done
    have same := timely (Database.flush_eq_ok.mp done).1
    subst same
    obtain ⟨ledger, grows⟩ := h.ledger.flushed done faithful.file recent faithful.loaded
    have beside' : s.Beside t.worker { s with db } := ⟨fun _ _ => rfl, fun _ _ => rfl⟩
    refine .released h holds (beside'.withSession _) grows ledger ?_ (recorded.mono grows).answer
    intro y found
    rw [Workers.withSession_self] at found
    have live : ∀ z : Live, z.file = x.file → z.revision = x.revision →
        z.loadedBlobRevision = x.revision → z.Faithful original ⟨db, s.history⟩ := by
      intro z file revision loaded
      refine ⟨?_, ?_, ?_⟩
      · rw [file, revision]
        exact (faithful.mono grows).file
      · rw [revision]
        exact (faithful.mono grows).recent
      · rw [loaded, revision]
    unfold Job.flushed at found
    split at found
    · cases found
    · cases found
      exact live _ rfl rfl rfl

theorem evictSession_moved {second : Bool} (here : t.phase = .holding second)
    (asked : t.job = .evict) : Moved original s t (s.evictSession t.worker) := by
  have holds : t.phase.holds = true := by rw [here]; rfl
  have recorded : t.job.Recorded s.toLedger := by
    intro call r same
    rw [asked] at same
    cases same
  have beside := (Workers.Beside.refl t.worker s).withSession none
  have gone : ∀ x, (s.withSession t.worker none).sessions t.worker = some x →
      x.Faithful original s.toLedger := s.dropped t.worker
  unfold Workers.evictSession
  split
  · exact .answered h holds trivial
  · rename_i x stored
    split
    · exact .inside h holds beside (.refl ..) h.ledger gone
        ⟨⟨recorded, h.live _ x stored, le_refl s.db.currentRevision⟩, fun _ => v.locked holds, nofun⟩
    · exact .released h holds beside (.refl ..) h.ledger gone trivial

theorem publish_moved {d : Draft} {base : Nat} (here : t.phase = .publishing d base)
    (timely : s.db.currentRevision = base → d.read = base) :
    Moved original s t (s.publish t.worker d base) := by
  obtain ⟨drawn, recent⟩ : d.Drawn original s.toLedger t.job ∧ base ≤ s.db.currentRevision := v.standing here
  have held : d.log.isSome = true → t.phase.holds = true := fun logged => by
    rw [here]
    exact logged
  unfold Workers.publish
  split
  · rename_i logged
    exact .answered h (held (by rw [logged]; rfl)) trivial
  · exact .stays h v trivial nofun nofun
  · rename_i db b row done logged
    have current := (Database.publishRevision_eq_ok.mp done).1
    have level := timely current
    obtain ⟨ledger, grows⟩ := h.ledger.published done (level ▸ drawn.effect)
    have holds := held (by rw [logged]; rfl)
    refine .inside h holds (((Workers.Beside.refl _ s).record db _ _).withSession none) grows ledger
      (Workers.dropped _ t.worker) ⟨⟨?_, ?_⟩, fun _ => v.locked holds, nofun⟩
    · show base + 1 ≤ db.blobRevision
      rw [← (Database.publishRevision_eq_ok.mp done).2]
    · intro call r same
      exact ⟨d.write, List.mem_append_right _ List.mem_cons_self, drawn.named call r same⟩
  · rename_i db done unlogged
    have current := (Database.publishRevision_eq_ok.mp done).1
    have level := timely current
    obtain ⟨ledger, grows⟩ := h.ledger.published done (level ▸ drawn.effect)
    refine ⟨grows, ⟨ledger, fun w x stored => (h.live w x stored).mono grows⟩,
      ⟨⟨?_, ?_⟩, nofun, nofun⟩, fun _ _ => ⟨rfl, rfl⟩, nofun⟩
    · exact ledger.ordered.bounded _ (List.mem_append_right _ List.mem_cons_self)
    · intro b mutate same
      obtain ⟨_, file, version, mutated⟩ := drawn.mutated b mutate same
      rw [level] at version
      refine ⟨file, d.file, (grows.past base recent).trans version, mutated, ?_⟩
      have write : d.write = .rewrite d.file.contents := by
        unfold Draft.write
        rw [unlogged]
      exact List.mem_append_right _ (List.mem_singleton.mpr (by rw [write]))

theorem finishStructural_moved {b : Band} {row : OperationRow} (here : t.phase = .logging b row) :
    Moved original s t (s.finishStructural t.worker b row) := by
  have holds : t.phase.holds = true := by rw [here]; rfl
  obtain ⟨published, named⟩ : row.resultRevision ≤ s.db.blobRevision ∧
      ∀ call r, t.job = .operation call r →
        s.toLedger.Records row.resultRevision call.operationId := v.standing here
  unfold Workers.finishStructural
  split
  · exact .answered h holds trivial
  · rename_i db done
    obtain ⟨ledger, grows⟩ := h.ledger.finished done published (shiftRangePermissions db.ranges b)
    refine .released h holds ⟨fun _ _ => rfl, fun _ _ => rfl⟩ grows ledger ?_ ?_
    · intro x stored
      exact (h.live _ x stored).mono grows
    · exact fun _ call r same => (named call r same).mono grows

theorem drop_moved {base : Nat} (here : t.phase = .dropping base)
    (free : s.locked t.worker = false) :
    Moved original s t (s.withSession t.worker none, .done (.published base)) := by
  have published : t.job.Published original s.toLedger base := v.standing here
  have beside := (Workers.Beside.refl t.worker s).withSession none
  refine ⟨.refl .., ⟨h.ledger, ?_⟩, ⟨published, nofun, nofun⟩, ?_, nofun⟩
  · intro w x stored
    by_cases same : w = t.worker
    · subst same
      exact s.dropped t.worker x stored
    · rw [beside.sessions w same] at stored
      exact h.live w x stored
  · intro w apart
    have other : w ≠ t.worker := by
      rintro rfl
      cases apart with
      | inl other => exact other rfl
      | inr held =>
        rw [free] at held
        cases held.2
    exact ⟨beside.sessions w other, rfl⟩

theorem advance_moved {validates : File → Nat → List NormalizedCell → Bool} {now : Nat}
    {r : Workers W × Phase} (timely : t.timely s = true)
    (next : s.advance validates t now = some r) : Moved original s t r := by
  unfold Workers.advance at next
  unfold Thread.timely at timely
  split at next
  · cases next
    exact begin_moved h v
  · rename_i here
    cases next
    exact locate_moved h v here
  · rename_i here
    split at next
    · cases next
    · rename_i free
      cases next
      exact acquire_moved h v here (Bool.eq_false_iff.mpr free)
  · rename_i here asked
    cases next
    exact evictSession_moved h v here asked
  · rename_i here other
    cases next
    refine openSession_moved h v here ?_ now
    intro x stored same
    simpa [here, stored, same] using timely
  · rename_i here
    cases next
    rw [here] at timely
    exact replayLog_moved h v here (of_decide_eq_true timely) now
  · rename_i here
    cases next
    exact use_moved h v validates here
  · rename_i here asked
    cases next
    exact append_moved h v here asked
  · cases next
  · rename_i here
    cases next
    exact maybeFlush_moved h v here now
  · rename_i here
    cases next
    refine stamp_moved h v here (fun same => ?_) now
    simpa [here, same] using timely
  · rename_i d here
    cases next
    have drawn : d.Drawn original s.toLedger t.job := v.standing here
    refine .stays h v ⟨drawn, le_refl s.db.currentRevision⟩ (fun held => ?_) nofun
    rw [here]
    exact held
  · rename_i here
    cases next
    refine publish_moved h v here fun same => ?_
    simpa [here, same] using timely
  · rename_i here
    cases next
    exact finishStructural_moved h v here
  · rename_i here
    split at next
    · cases next
    · rename_i free
      cases next
      exact drop_moved h v here (Bool.eq_false_iff.mpr free)
  · cases next

end Each

end Statements

section Runs

variable {ι : Type} [DecidableEq ι] [DecidableEq W]

def Apart (t u : Thread W) : Prop :=
  t.worker = u.worker → ¬ (t.phase.holds = true ∧ u.phase.holds = true)

abbrev Agreed (original : File) : Interleaving.State ι (Workers W) (Thread W) → Prop :=
  Interleaving.Holds (Workers.Consistent original) (fun s t => t.Valid original s) Apart

abbrev TimelyRun (validates : File → Nat → List NormalizedCell → Bool) (original : File) :
    Interleaving.State ι (Workers W) (Thread W) → Prop :=
  Guarded (Interleaving.step (Workers.next validates))
    (fun s a => (s.pc a.1).timely s.shared = true) (Untouched original)

omit [DecidableEq ι] [DecidableEq W] in
theorem agreed_at_start {s : Interleaving.State ι (Workers W) (Thread W)}
    (h : Untouched original s) : Agreed original s := by
  have idle : ∀ i, (s.pc i).phase.holds = false := fun i => by rw [h.starting i]; rfl
  have version : ∀ n, s.shared.toLedger.version original n = some original.contents := by
    intro n
    unfold Ledger.version stateAt upTo
    rw [h.fresh]
    rfl
  refine ⟨⟨⟨?_, h.flushed.ge, ?_, h.logged, ?_, _, version _⟩, ?_⟩, ?_, ?_⟩
  · rw [h.fresh]
    exact .nil
  · rw [version, h.blob]
  · rw [h.fresh, unflushed_eq_nil (h.flushed ▸ h.logged)]
    rfl
  · intro w x stored
    rw [h.closed w] at stored
    cases stored
  · intro i
    refine ⟨?_, ?_, ?_⟩
    · rw [h.starting i]
      trivial
    · intro held
      rw [idle i] at held
      cases held
    · rw [h.starting i]
      exact nofun
  · intro i j _ _ both
    rw [idle i] at both
    cases both.1

theorem agreed_throughout {validates : File → Nat → List NormalizedCell → Bool}
    {s : Interleaving.State ι (Workers W) (Thread W)} (h : TimelyRun validates original s) :
    Agreed original s := by
  refine Interleaving.holds_throughout (fun s => agreed_at_start) ?_ h
  intro s i now r holds timely moved
  obtain ⟨r, step, rfl⟩ := Option.map_eq_some_iff.mp moved
  have keeps := advance_moved holds.shared (holds.each i) timely step
  refine ⟨keeps.consistent, keeps.valid, ?_⟩
  intro j other
  have apart : Apart { s.pc i with phase := r.2 } (s.pc j) := by
    intro same both
    cases keeps.taken both.1 with
    | inl held => exact holds.pair i j other.symm same ⟨held, both.2⟩
    | inr free =>
      have locked := (holds.each j).locked both.2
      rw [← same, free] at locked
      cases locked
  exact ⟨keeps.disturbs (holds.each j) (holds.pair j i other), apart,
    fun same both => apart same.symm both.symm⟩

/-- The workbook is the original with every write applied, each once and in the order of its
revision, and each accepted operation is one of them. -/
structure Durable (original : File) (s : Interleaving.State ι (Workers W) (Thread W)) : Prop where
  rebuilt : ∃ file, s.shared.db.rebuilt = some file ∧
    replay Write.act original.contents s.shared.history = some file.contents
  inOrder : s.shared.history.Pairwise fun a b => a.1 < b.1
  accepted : ∀ i reply call r, (s.pc i).phase = .done (.replied reply) →
    reply.replayed = false → (s.pc i).job = .operation call r →
      s.shared.Records reply.revision call.operationId
  materialized : ∀ i file n, (s.pc i).phase = .done (.read file n) →
    s.shared.version original n = some file.contents
  stamped : s.shared.version original s.shared.db.blobRevision = some s.shared.db.blob.contents

end Runs

/-! Worker 0 reads the empty workbook; worker 1 applies an operation; worker 0 applies the next
one three seconds later. -/

inductive Client where
  | here
  | there
  | again
  deriving DecidableEq

def Client.worker : Client → Nat
  | .here => 0
  | .there => 1
  | .again => 0

def unopened (jobs : Client → Job) : Interleaving.State Client (Workers Nat) (Thread Nat) :=
  ⟨⟨⟨emptyLedger.db, []⟩, fun _ => none, fun _ => false⟩, fun i => ⟨i.worker, jobs i, .start⟩⟩

theorem untouched_unopened (jobs : Client → Job) :
    Untouched emptyLedger.db.blob (unopened jobs) :=
  ⟨rfl, rfl, nofun, fun _ => rfl, rfl, fun _ => rfl⟩

def twoWorkers : Interleaving.State Client (Workers Nat) (Thread Nat) :=
  unopened fun
    | .here => .read
    | .there => .operation firstCall (setDigit '7')
    | .again => .operation (secondCall 3000) (setDigit '8')

def turns (i : Client) (n now : Nat) : List (Client × Nat) := List.replicate n (i, now)

def staleRead : List (Client × Nat) :=
  turns .here 4 0 ++ turns .there 10 0 ++ turns .again 11 3000

def inTurn : List (Client × Nat) :=
  turns .there 10 0 ++ turns .again 6 0 ++ turns .again 6 3000 ++ turns .here 4 3000

end Plexichat.Sum
