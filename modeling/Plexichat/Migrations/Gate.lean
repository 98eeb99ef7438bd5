import Plexichat.Migrations.Manager

/-! The gate for irreversible migrations. `get_migration_metadata` looks for a file named after the
version alone, and migration files are named after the version and a name: the gate takes every
migration for reversible. What is left is the tampering guard, which takes a token where the history
has another checksum. -/
namespace Plexichat.Migrations

/-- `<version>_<name>.py` -/
def WellNamed (f : File) : Prop :=
  ∃ version name, f.filename = version ++ '_' :: name ++ ".py".toList

def Irreversible (e : Env) (m : Migration) : Prop :=
  (metadataFromDocstring e.python (e.python.doc m.file.content)).irreversible

inductive Ran (e : Env) : Attempt → Run → Prop
  | single {v : Version} {a : Attempt} {m : Migration} {s t : State}
      (h : e.applyMigration v false a s = (.ok m, t)) : Ran e a ⟨m, s, t⟩
  | batch {attempt : Migration → Attempt} {s t : State} {runs : List Run} {run : Run}
      (h : e.applyAllPending false attempt s = (.ok runs, t)) (member : run ∈ runs) :
      Ran e (attempt run.migration) run

def Due (e : Env) (a : Attempt) (m : Migration) (s : State) : Prop :=
  s.uptimeGate (metadataFromDocstring e.python (e.python.doc m.file.content)) e.delayHours
    a.startAt = .ok ()

def Spent (now : Nat) (s t : State) : Prop :=
  ∃ token ∈ s.tokens, token.used = false ∧ now < token.expiresAt ∧
    t.tokens = (s.useToken token.hash).tokens

def Gated (e : Env) (a : Attempt) (run : Run) : Prop :=
  Irreversible e run.migration →
    Due e a run.migration run.before ∨ Spent a.claimAt run.before run.after

def Tampered (run : Run) : Prop :=
  ∃ r, run.before.getMigrationStatus run.migration.version = some r ∧
    run.migration.checksum ≠ r.checksum

section Names

variable {dir : List File} {py : Python} {v : Version} {f : File}

theorem versionOf_eq_some (named : versionOf f = some v) : '_' ∉ v := by
  simp only [versionOf] at named
  split at named
  · cases named
    intro inside
    have apart := List.all_eq_true.mp List.all_takeWhile '_' inside
    simp at apart
  · cases named

theorem getMigrationMetadata_of_wellNamed (named : ∀ f ∈ dir, WellNamed f) (plain : '_' ∉ v) :
    getMigrationMetadata py dir v = ⟨false, []⟩ := by
  have absent : (dir.find? fun f => f.filename == v ++ ".py".toList) = none := by
    apply List.find?_eq_none.mpr
    intro f member same
    obtain ⟨version, name, spelled⟩ := named f member
    have underscore : '_' ∈ v ++ ".py".toList := by
      rw [← beq_iff_eq.mp same, spelled]
      simp
    rcases List.mem_append.mp underscore with inside | inside
    · exact plain inside
    · exact absurd inside (by decide)
  rw [getMigrationMetadata, absent]

end Names

section Tokens

variable {e : Env} {a : Attempt} {m m' : Migration} {s t : State} {now : Nat} {used : Bool}

theorem tryConsume_spends (taken : e.tryConsumeEmergencyOverride now s = some t) :
    Spent now s t := by
  obtain ⟨token, _, claimed⟩ := Option.bind_eq_some_iff.mp taken
  dsimp only at claimed
  split at claimed
  · rename_i peeked
    cases claimed
    unfold State.peekEmergencyOverride at peeked
    split at peeked
    · cases peeked
    · rename_i row found
      obtain ⟨member, hash⟩ := Table.find_eq_some.mp found
      obtain ⟨unused, valid⟩ : row.used = false ∧ now < row.expiresAt := by simpa using peeked
      exact ⟨row, member, unused, valid, by rw [hash]⟩
  · cases claimed

theorem not_spent (same : t.tokens = s.tokens) : ¬Spent now s t := by
  rintro ⟨token, member, unused, -, spent⟩
  have marked : ({ token with used := true } : Token) ∈ (s.useToken token.hash).tokens := by
    unfold State.useToken
    rw [Table.mem_update]
    exact ⟨token, member, by simp⟩
  rw [← spent, same] at marked
  have twice := Table.eq_of_key marked member rfl
  rw [← twice] at unused
  cases unused

theorem checkRecorded_spent_iff (passed : e.checkRecorded now m false s = some t) :
    Spent now s t ↔
      ∃ r, s.getMigrationStatus m.version = some r ∧ m.checksum ≠ r.checksum := by
  unfold Env.checkRecorded at passed
  split at passed
  · rename_i absent
    cases passed
    simp [absent, not_spent]
  · rename_i r found
    split at passed
    · rename_i same
      cases passed
      have equal : m.checksum = r.checksum := by simpa using same
      simp [found, not_spent, equal]
    · rename_i other
      have spent := tryConsume_spends passed
      simpa [found, spent] using other

theorem executeMigration_ok (ran : e.executeMigration a m false used s = (.ok m', t)) :
    m' = m ∧ ∃ s', e.checkRecorded a.claimAt m used s = some s' ∧ t.tokens = s'.tokens := by
  unfold Env.executeMigration at ran
  simp only [Bool.false_eq_true, if_false] at ran
  split at ran
  · simp at ran
  · rename_i s' passed
    split at ran
    · split at ran
      · simp only [Prod.mk.injEq, Except.ok.injEq] at ran
        obtain ⟨rfl, rfl⟩ := ran
        exact ⟨rfl, s', passed, rfl⟩
      · simp at ran
    · simp at ran

theorem executeMigration_spent_iff (ran : e.executeMigration a m false false s = (.ok m', t)) :
    m' = m ∧ (Spent a.claimAt s t ↔ Tampered ⟨m, s, t⟩) := by
  obtain ⟨same, s', passed, tokens⟩ := executeMigration_ok ran
  refine ⟨same, ?_⟩
  have moved : Spent a.claimAt s t ↔ Spent a.claimAt s s' := by simp only [Spent, tokens]
  exact moved.trans (checkRecorded_spent_iff passed)

theorem applyEach_spent_iff {attempt : Migration → Attempt} {applied : List Version}
    {pending : List Migration} {run : Run}
    (member : run ∈ (e.applyEach false attempt applied pending s).1) :
    Spent (attempt run.migration).claimAt run.before run.after ↔ Tampered run := by
  induction pending generalizing applied s with
  | nil => cases member
  | cons m pending ih =>
    rw [Env.applyEach] at member
    split at member
    · cases member
    · split at member
      · cases member
      · rename_i t executed
        rcases List.mem_cons.mp member with rfl | later
        · exact (executeMigration_spent_iff executed).2
        · exact ih later

theorem canRun_reversible (named : ∀ f ∈ e.dir, WellNamed f) {v : Version} (plain : '_' ∉ v) :
    e.canRunIrreversibleMigration v now s = .ok .reversible := by
  simp [Env.canRunIrreversibleMigration, getMigrationMetadata_of_wellNamed named plain]

theorem applyMigration_spent_iff (named : ∀ f ∈ e.dir, WellNamed f) {v : Version}
    (ran : e.applyMigration v false a s = (.ok m, t)) :
    Spent a.claimAt s t ↔ Tampered ⟨m, s, t⟩ := by
  unfold Env.applyMigration at ran
  split at ran
  · simp at ran
  · rename_i m' found
    have pending := mem_getPendingMigrations (List.mem_of_find?_eq_some found)
    have plain := versionOf_eq_some (mem_getMigrationFiles.mp pending.1).2
    have asked : m'.version = v := by simpa using List.find?_some found
    split at ran
    · simp at ran
    · simp only [Bool.false_eq_true, if_false, ← asked, canRun_reversible named plain] at ran
      obtain ⟨rfl, spent⟩ := executeMigration_spent_iff ran
      exact spent

end Tokens

/-- An irreversible migration that runs passes the gate exactly when it happens to be due, or when
its file is not the recorded one. -/
theorem irreversible_gate_iff {e : Env} {a : Attempt} {run : Run}
    (named : ∀ f ∈ e.dir, WellNamed f) (ran : Ran e a run) :
    Gated e a run ↔
      (Irreversible e run.migration → Due e a run.migration run.before ∨ Tampered run) := by
  have spent : Spent a.claimAt run.before run.after ↔ Tampered run := by
    cases ran with
    | single applied => exact applyMigration_spent_iff named applied
    | batch applied member =>
      unfold Env.applyAllPending at applied
      dsimp only at applied
      split at applied
      · cases applied
        exact applyEach_spent_iff member
      · simp at applied
  rw [Gated, spent]

section Drop

def block : List Char := "\x7b\"irreversible\": true, \"depends_on\": [\"000\"]\x7d".toList

def initial : File := ⟨"000_initial.py".toList, "Initial schema".toList⟩

def drop : File :=
  ⟨"001_drop.py".toList, "Depends: 000\nMIGRATION_METADATA:\n".toList ++ block⟩

def dropEnv : Env where
  python := ⟨id, fun t => if t == block then some ⟨true, ["000".toList]⟩ else none, some, id⟩
  dir := [initial, drop]
  override := none
  delayDays := 7

def soon : Attempt := ⟨1000, 1000, 1000, true, true, true, true⟩

def installed : State where
  history := ⟨[⟨"000".toList, initial.content, .completed, 0⟩], List.nodup_singleton _⟩
  uptime := .empty
  session := none
  tokens := .empty

def dropRun : Run where
  migration := ⟨"001".toList, drop, drop.content, ["000".toList]⟩
  before := installed
  after := (installed.recordMigrationStart 1000
    ⟨"001".toList, drop, drop.content, ["000".toList]⟩).recordMigrationSuccess "001".toList

theorem dropEnv_named : ∀ f ∈ dropEnv.dir, WellNamed f := by
  intro f member
  rcases List.mem_pair.mp member with rfl | rfl
  · exact ⟨"000".toList, "initial".toList, rfl⟩
  · exact ⟨"001".toList, "drop".toList, rfl⟩

theorem dropRun_applied : dropEnv.applyMigration "001".toList false soon installed =
    (.ok dropRun.migration, dropRun.after) := rfl

theorem dropRun_not_due : ¬Due dropEnv soon dropRun.migration dropRun.before := by
  intro due
  have refused : installed.uptimeGate ⟨true, ["000".toList]⟩ 168 1000 =
      .error .insufficientUptime := rfl
  exact absurd (refused.symm.trans due) (by simp)

/-- No token, no uptime, and the file is the recorded one. -/
theorem irreversible_gate_iff_drop : ¬Gated dropEnv soon dropRun := by
  intro gated
  have ran : Ran dropEnv soon dropRun := .single dropRun_applied
  rcases (irreversible_gate_iff dropEnv_named ran).mp gated rfl with due | ⟨r, found, -⟩
  · exact dropRun_not_due due
  · cases found

theorem irreversible_gate_open : ¬∀ (e : Env) (a : Attempt) (run : Run),
    (∀ f ∈ e.dir, WellNamed f) → Ran e a run → Gated e a run := by
  intro claim
  have gated := claim dropEnv soon dropRun dropEnv_named (.single dropRun_applied)
  rcases gated rfl with due | ⟨token, member, -⟩
  · exact dropRun_not_due due
  · exact absurd member List.not_mem_nil

end Drop

end Plexichat.Migrations
