import Plexichat.Library.Transition
import Plexichat.Migrations.Manager

/-! Runs of apply_migration, apply_all_pending and rollback_migration, one after the other, over one
migrations directory. Nothing in a rollback looks at the migrations that rest on the one it takes
back. -/
namespace Plexichat.Migrations
open Transition

inductive Call where
  | apply (v : Version) (dryRun : Bool) (a : Attempt)
  | applyAll (dryRun : Bool) (attempt : Migration → Attempt)
  | rollback (v : Version) (completes recorded : Bool)
  /-- The uptime grows, tokens are made and used. -/
  | others (uptime : Table Session Session.id) (session : Option Nat)
      (tokens : Table Token Token.hash)

def step (py : Python) (dir : List File) (s : State) :
    Option (List Char) × Nat × Call → Option State
  | (override, delayDays, call) =>
    let e : Env := ⟨py, dir, override, delayDays⟩
    match call with
    | .apply v dryRun a => some (e.applyMigration v dryRun a s).2
    | .applyAll dryRun attempt => some (e.applyAllPending dryRun attempt s).2
    | .rollback v completes recorded => some (e.rollbackMigration v completes recorded s).2
    | .others uptime session tokens => some ⟨s.history, uptime, session, tokens⟩

def Initial (s : State) : Prop := ∀ v, ¬Completed s v

def Closed (dir : List File) (s : State) : Prop :=
  ∀ v f, (v, f) ∈ getMigrationFiles dir → Completed s v →
    ∀ d ∈ extractDependencies f.content, Completed s d

def Unused (dir : List File) (s : State) (v : Version) : Prop :=
  ∀ u f, (u, f) ∈ getMigrationFiles dir → u ≠ v → Completed s u →
    v ∉ extractDependencies f.content

def RollsBackUnused (dir : List File) (s : State) : Option (List Char) × Nat × Call → Prop
  | (_, _, .rollback v completes recorded) => completes && recorded → Unused dir s v
  | _ => True

section Executions

variable {e : Env} {a : Attempt} {m : Migration} {s t : State} {u v : Version} {used : Bool}

theorem completed_congr (same : t.history = s.history) : Completed t v ↔ Completed s v := by
  simp only [Completed, same]

theorem completed_recordMigrationFailure (other : u ≠ v) :
    Completed (s.recordMigrationFailure v) u ↔ Completed s u := by
  rw [State.recordMigrationFailure, completed_setStatus, if_neg other]

theorem completed_recordMigrationSuccess (other : u ≠ v) :
    Completed (s.recordMigrationSuccess v) u ↔ Completed s u := by
  rw [State.recordMigrationSuccess, completed_setStatus, if_neg other]

theorem tryConsume_history {now : Nat} (taken : e.tryConsumeEmergencyOverride now s = some t) :
    t.history = s.history := by
  obtain ⟨token, _, claimed⟩ := Option.bind_eq_some_iff.mp taken
  dsimp only at claimed
  split at claimed
  · cases claimed
    rfl
  · cases claimed

theorem checkRecorded_history {now : Nat} (passed : e.checkRecorded now m used s = some t) :
    t.history = s.history := by
  unfold Env.checkRecorded at passed
  split at passed
  · cases passed
    rfl
  · split at passed
    · cases passed
      rfl
    · exact tryConsume_history passed

theorem completed_executeMigration {dryRun : Bool} (other : u ≠ m.version) :
    Completed (e.executeMigration a m dryRun used s).2 u ↔ Completed s u := by
  have failed : ∀ s', Completed
      (if a.failureRecorded then s'.recordMigrationFailure m.version else s') u ↔
      Completed s' u := by
    intro s'
    split
    · exact completed_recordMigrationFailure other
    · rfl
  have started : ∀ s', Completed (s'.recordMigrationStart a.startAt m) u ↔ Completed s' u := by
    intro s'
    rw [completed_recordMigrationStart]
    exact and_iff_right other
  unfold Env.executeMigration
  dsimp only
  split
  · rfl
  · split
    · exact failed s
    · rename_i s' passed
      have kept := completed_congr (v := u) (checkRecorded_history passed)
      split
      · split
        · rw [completed_recordMigrationSuccess other, started, kept]
        · rw [failed, started, kept]
      · rw [failed, kept]

theorem executeMigration_completes {m' : Migration}
    (ran : e.executeMigration a m false used s = (.ok m', t)) : Completed t m.version := by
  unfold Env.executeMigration at ran
  simp only [Bool.false_eq_true, if_false] at ran
  split at ran
  · simp at ran
  · rename_i s' _
    split at ran
    · split at ran
      · obtain ⟨-, rfl⟩ := Prod.mk.inj ran
        rw [State.recordMigrationSuccess, completed_setStatus, if_pos rfl]
        simp [State.recordMigrationStart, Table.find_upsert]
      · simp at ran
    · simp at ran

theorem executeMigration_dry : (e.executeMigration a m true used s).2 = s := by
  simp [Env.executeMigration]

theorem validateDependencies_ok {applied : List Version}
    (valid : e.validateDependencies m applied = .ok ()) : ∀ d ∈ m.dependsOn, d ∈ applied := by
  unfold Env.validateDependencies at valid
  split at valid
  · rename_i none
    intro d declared
    rw [List.isEmpty_iff.mp none] at declared
    cases declared
  · split at valid
    · rename_i satisfied
      intro d declared
      have present := List.filter_eq_nil_iff.mp satisfied d declared
      simpa using present
    · cases valid

end Executions

section Closure

variable {py : Python} {dir : List File} {e : Env} {m : Migration} {s t : State} {v : Version}

structure Pending (dir : List File) (s : State) (m : Migration) : Prop where
  file : (m.version, m.file) ∈ getMigrationFiles dir
  declared : m.dependsOn = extractDependencies m.file.content
  fresh : ¬Completed s m.version

theorem pending_of_mem (found : m ∈ getPendingMigrations py dir s) : Pending dir s m := by
  obtain ⟨file, fresh, -, declared⟩ := mem_getPendingMigrations found
  exact ⟨file, declared, fresh⟩

theorem Closed.change (closed : Closed dir s) (distinct : Distinct dir) (pending : Pending dir s m)
    (satisfied : ∀ d ∈ m.dependsOn, Completed s d)
    (others : ∀ u, u ≠ m.version → (Completed t u ↔ Completed s u)) : Closed dir t := by
  have stays : ∀ d, Completed s d → Completed t d := by
    intro d done
    have other : d ≠ m.version := fun same => pending.fresh (same ▸ done)
    exact (others d other).mpr done
  intro u f file done d declared
  by_cases own : u = m.version
  · subst own
    have same : f = m.file :=
      congrArg Prod.snd (List.inj_on_of_nodup_map distinct file pending.file rfl)
    apply stays
    apply satisfied
    rw [pending.declared, ← same]
    exact declared
  · exact stays d (closed u f file ((others u own).mp done) d declared)

theorem Closed.applyEach {attempt : Migration → Attempt} {applied : List Version}
    {pending : List Migration} (distinct : Distinct dir) (closed : Closed dir s)
    (done : ∀ v ∈ applied, Completed s v) (todo : ∀ m ∈ pending, Pending dir s m)
    (once : (pending.map Migration.version).Nodup) :
    Closed dir (e.applyEach false attempt applied pending s).2 := by
  induction pending generalizing applied s with
  | nil => exact closed
  | cons m pending ih =>
    obtain ⟨apart, once⟩ := List.nodup_cons.mp once
    have first := todo m List.mem_cons_self
    rw [Env.applyEach]
    split
    · exact closed
    · rename_i valid
      have satisfied : ∀ d ∈ m.dependsOn, Completed s d :=
        fun d declared => done d (validateDependencies_ok valid d declared)
      have others : ∀ t, (e.executeMigration (attempt m) m false false s).2 = t →
          ∀ u, u ≠ m.version → (Completed t u ↔ Completed s u) := by
        rintro _ rfl u other
        exact completed_executeMigration other
      split
      · rename_i t executed
        exact closed.change distinct first satisfied (others t (by rw [executed]))
      · rename_i t executed
        have kept := others t (by rw [executed])
        apply ih (closed.change distinct first satisfied kept) _ _ once
        · intro v member
          rcases List.mem_append.mp member with before | last
          · have other : v ≠ m.version := fun same => first.fresh (same ▸ done v before)
            exact (kept v other).mpr (done v before)
          · rw [List.mem_singleton.mp last]
            exact executeMigration_completes executed
        · intro m' later
          have waiting := todo m' (List.mem_cons_of_mem m later)
          have other : m'.version ≠ m.version :=
            fun same => apart (same ▸ List.mem_map_of_mem later)
          exact ⟨waiting.file, waiting.declared, fun done => waiting.fresh ((kept _ other).mp done)⟩

theorem applyEach_dry {attempt : Migration → Attempt} {applied : List Version}
    {pending : List Migration} : (e.applyEach true attempt applied pending s).2 = s := by
  induction pending generalizing applied with
  | nil => rfl
  | cons m pending ih =>
    have still : ∀ r t, e.executeMigration (attempt m) m true false s = (r, t) → t = s := by
      intro r t executed
      rw [← executeMigration_dry (e := e) (a := attempt m) (m := m) (s := s), executed]
    rw [Env.applyEach]
    split
    · rfl
    · split
      · rename_i t executed
        exact still _ t executed
      · rename_i t executed
        rw [still _ t executed]
        exact ih

theorem Closed.applyAllPending (closed : Closed e.dir s) (distinct : Distinct e.dir) (dryRun : Bool)
    (attempt : Migration → Attempt) : Closed e.dir (e.applyAllPending dryRun attempt s).2 := by
  unfold Env.applyAllPending
  dsimp only
  split
  · cases dryRun with
    | true =>
      rw [applyEach_dry]
      exact closed
    | false =>
      apply Closed.applyEach distinct closed _ _ (pending_once distinct)
      · exact fun v applied => mem_getAppliedMigrations.mp applied
      · exact fun m found => pending_of_mem found
  · exact closed

theorem Closed.applyMigration (closed : Closed e.dir s) (distinct : Distinct e.dir) (dryRun : Bool)
    (a : Attempt) : Closed e.dir (e.applyMigration v dryRun a s).2 := by
  unfold Env.applyMigration
  split
  · exact closed
  · rename_i m found
    have pending := pending_of_mem (List.mem_of_find?_eq_some found)
    split
    · exact closed
    · rename_i valid
      have satisfied : ∀ d ∈ m.dependsOn, Completed s d := fun d declared =>
        mem_getAppliedMigrations.mp (validateDependencies_ok valid d declared)
      split
      · rw [executeMigration_dry]
        exact closed
      · split
        · exact closed
        · split
          · exact closed
          · rename_i s' taken
            apply closed.change distinct pending satisfied
            intro u other
            exact (completed_executeMigration other).trans (completed_congr (tryConsume_history taken))
        · apply closed.change distinct pending satisfied
          intro u other
          exact completed_executeMigration other

theorem rollback_closed_iff (closed : Closed dir s) :
    Closed dir (s.recordRollback v) ↔ Unused dir s v := by
  constructor
  · intro after u f file other done declared
    have still : Completed (s.recordRollback v) u := completed_recordRollback.mpr ⟨other, done⟩
    have taken := after u f file still v declared
    exact (completed_recordRollback.mp taken).1 rfl
  · intro unused u f file still d declared
    obtain ⟨other, done⟩ := completed_recordRollback.mp still
    apply completed_recordRollback.mpr
    constructor
    · rintro rfl
      exact unused u f file other done declared
    · exact closed u f file done d declared

theorem Closed.rollbackMigration (closed : Closed e.dir s) {completes recorded : Bool}
    (unused : completes && recorded → Unused e.dir s v) :
    Closed e.dir (e.rollbackMigration v completes recorded s).2 := by
  unfold Env.rollbackMigration
  split
  · exact closed
  · split
    · split
      · exact closed
      · split
        · rename_i works
          exact (rollback_closed_iff closed).mpr (unused works)
        · exact closed
    · exact closed

end Closure

/-- In a directory with one file a version, where each rollback that succeeds is of a version
that nothing completed rests on. -/
theorem dependencies_closed {py : Python} {dir : List File} {s : State} (distinct : Distinct dir)
    (h : Guarded (step py dir) (RollsBackUnused dir) Initial s) : Closed dir s := by
  refine guarded_invariant ?_ ?_ h
  · intro s empty v f _ done
    exact absurd done (empty v)
  · rintro s ⟨override, delayDays, call⟩ t closed unused next
    let e : Env := ⟨py, dir, override, delayDays⟩
    have kept : Closed e.dir s := closed
    cases call with
    | apply v dryRun a =>
      cases next
      exact kept.applyMigration distinct dryRun a
    | applyAll dryRun attempt =>
      cases next
      exact kept.applyAllPending distinct dryRun attempt
    | rollback v completes recorded =>
      cases next
      exact kept.rollbackMigration unused
    | others uptime session tokens =>
      cases next
      exact closed

section Base

def base : File := ⟨"000_base.py".toList, "Base".toList⟩

def addition : File := ⟨"001_addition.py".toList, "Depends: 000".toList⟩

def plainPython : Python := ⟨id, fun _ => none, some, id⟩

def unmigrated : State := ⟨.empty, .empty, none, .empty⟩

def works : Attempt := ⟨0, 0, 0, true, true, true, true⟩

def applies (v : Version) : Option (List Char) × Nat × Call := (none, 7, .apply v false works)

theorem unmigrated_initial : Initial unmigrated := by
  rintro v ⟨r, found, -⟩
  cases found

theorem base_distinct : Distinct [base, addition] := by
  unfold Distinct
  decide

theorem dependencies_closed_addition : ∃ s, Completed s "001".toList ∧ Closed [base, addition] s := by
  have start : Guarded (step plainPython [base, addition]) (RollsBackUnused [base, addition])
      Initial unmigrated := .start unmigrated_initial
  have first := start.step (a := applies "000".toList) trivial rfl
  have second := first.step (a := applies "001".toList) trivial rfl
  exact ⟨_, ⟨_, rfl, rfl⟩, dependencies_closed base_distinct second⟩

/-- 000 and 001 are applied, and 000 is rolled back. -/
theorem dependencies_rolled_back : ¬∀ (py : Python) (dir : List File) (s : State), Distinct dir →
    Reachable (step py dir) Initial s → Closed dir s := by
  intro claim
  have reached : Reachable (step plainPython [base, addition]) Initial _ := reachable_of_run
    [applies "000".toList, applies "001".toList, (none, 7, .rollback "000".toList true true)]
    unmigrated_initial rfl
  have closed := claim plainPython [base, addition] _ base_distinct reached
  have file : ("001".toList, addition) ∈ getMigrationFiles [base, addition] :=
    mem_getMigrationFiles.mpr ⟨by simp, rfl⟩
  obtain ⟨r, found, done⟩ := closed _ _ file ⟨_, rfl, rfl⟩ "000".toList (by decide)
  cases found
  cases done

end Base

end Plexichat.Migrations
