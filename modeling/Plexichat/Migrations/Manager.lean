import Plexichat.Migrations.History

/-! core/migrations/manager.py with the gate of tracker.py, one call at a time: the lock is free, the
uptime session of the process has started, and an error leaves what was written before it. -/
namespace Plexichat.Migrations

structure Env where
  python : Python
  dir : List File
  /-- EMERGENCY_MIGRATION_OVERRIDE -/
  override : Option (List Char)
  delayDays : Nat

/-- What happens in one execution of a migration: the clock at the gate, when a token is claimed and
when the start is recorded, which records are written, and whether the file is valid and its SQL
completes. -/
structure Attempt where
  gateAt : Nat
  claimAt : Nat
  startAt : Nat
  started : Bool
  completes : Bool
  recorded : Bool
  failureRecorded : Bool

inductive Refusal where
  | invalidOverride
  | dependency (d : Version)
  | noneCompleted
  | insufficientUptime

inductive Passed where
  | reversible | overrideActive | allChecks

inductive Error where
  | notPending (v : Version)
  | withoutDepends
  | unsatisfied (deps : List Version)
  | cannotRun (r : Refusal)
  | overrideGone
  | blocked
  | gap
  | notInHistory
  | cannotRollBack (status : Status)
  | fileNotFound
  | raised

structure Run where
  migration : Migration
  before : State
  after : State

namespace State

variable (s : State)

/-- `_current_session_contribution` -/
def sessionContribution (now appliedAt : Nat) : Nat :=
  match s.session.bind s.uptime.find with
  | none => 0
  | some row =>
    if row.startTime < appliedAt then 0
    else max row.uptimeSeconds (now - row.startTime) - row.uptimeSeconds

def uptimeFrom (now since : Nat) : Nat :=
  ((s.uptime.rows.filter fun r => since ≤ r.startTime).map Session.uptimeSeconds).sum +
    s.sessionContribution now since

def getTotalUptimeSince (now : Nat) (v : Version) : Nat :=
  match s.getMigrationStatus v with
  | none => 0
  | some r => if r.status = .completed then s.uptimeFrom now r.appliedAt else 0

def latestCompletedAppliedAt : Option Nat :=
  (s.history.rows.reverse.find? fun r => r.status = .completed).map Row.appliedAt

def peekEmergencyOverride (now : Nat) (hash : List Char) : Bool :=
  match s.tokens.find hash with
  | none => false
  | some t => !t.used && now < t.expiresAt

def useToken (hash : List Char) : State :=
  let spend (t : Token) : Token := { t with used := true }
  { s with tokens := s.tokens.update (fun t => t.hash = hash) spend fun _ => rfl }

/-- The checks of `can_run_irreversible_migration` on what a migration declares. -/
def uptimeGate (metadata : Metadata) (delayHours now : Nat) : Except Refusal Unit :=
  let incomplete := metadata.dependsOn.find? fun d =>
    (s.getMigrationStatus d).all fun r => r.status ≠ .completed
  match incomplete, metadata.dependsOn.getLast? with
  | some d, _ => .error (.dependency d)
  | none, some d =>
    if s.getTotalUptimeSince now d < delayHours * 3600 then .error .insufficientUptime else .ok ()
  | none, none =>
    match s.latestCompletedAppliedAt with
    | none => .error .noneCompleted
    | some reference =>
      if s.uptimeFrom now reference < delayHours * 3600 then .error .insufficientUptime else .ok ()

end State

namespace Env

variable (e : Env)

def token : Option (List Char) := e.override.filter fun t => !t.isEmpty

def delayHours : Nat := e.delayDays * 24

def canRunIrreversibleMigration (v : Version) (now : Nat) (s : State) : Except Refusal Passed :=
  let metadata := getMigrationMetadata e.python e.dir v
  if !metadata.irreversible then .ok .reversible
  else
    match e.token with
    | some t =>
      if s.peekEmergencyOverride now (e.python.sha256 t) then .ok .overrideActive
      else .error .invalidOverride
    | none => (s.uptimeGate metadata e.delayHours now).map fun _ => .allChecks

/-- One statement marks the token where it is unused and has not expired. -/
def tryConsumeEmergencyOverride (now : Nat) (s : State) : Option State :=
  e.token.bind fun t =>
    let hash := e.python.sha256 t
    if s.peekEmergencyOverride now hash then some (s.useToken hash) else none

def validateDependencies (m : Migration) (applied : List Version) : Except Error Unit :=
  if m.dependsOn.isEmpty then
    if migrationFileIsIrreversible e.python m.file then .error .withoutDepends else .ok ()
  else
    match m.dependsOn.filter fun d => !applied.contains d with
    | [] => .ok ()
    | unsatisfied => .error (.unsatisfied unsatisfied)

/-- The tampering guard. None is a ValueError. -/
def checkRecorded (now : Nat) (m : Migration) (overrideConsumed : Bool) (s : State) :
    Option State :=
  match s.getMigrationStatus m.version with
  | none => some s
  | some r =>
    if m.checksum = r.checksum || overrideConsumed then some s
    else e.tryConsumeEmergencyOverride now s

def executeMigration (a : Attempt) (m : Migration) (dryRun overrideConsumed : Bool) (s : State) :
    Except Error Migration × State :=
  let fail (s : State) := if a.failureRecorded then s.recordMigrationFailure m.version else s
  if dryRun then (if a.completes then .ok m else .error .raised, s)
  else
    match e.checkRecorded a.claimAt m overrideConsumed s with
    | none => (.error .blocked, fail s)
    | some s =>
      if a.started then
        let s := s.recordMigrationStart a.startAt m
        if a.completes && a.recorded then (.ok m, s.recordMigrationSuccess m.version)
        else (.error .raised, fail s)
      else (.error .raised, fail s)

def applyMigration (v : Version) (dryRun : Bool) (a : Attempt) (s : State) :
    Except Error Migration × State :=
  match (getPendingMigrations e.python e.dir s).find? fun m => m.version = v with
  | none => (.error (.notPending v), s)
  | some m =>
    match e.validateDependencies m s.getAppliedMigrations with
    | .error x => (.error x, s)
    | .ok _ =>
      if dryRun then e.executeMigration a m true false s
      else
        match e.canRunIrreversibleMigration v a.gateAt s with
        | .error r => (.error (.cannotRun r), s)
        | .ok .overrideActive =>
          match e.tryConsumeEmergencyOverride a.gateAt s with
          | none => (.error .overrideGone, s)
          | some s => e.executeMigration a m false true s
        | .ok _ => e.executeMigration a m false false s

/-- validator.validate_migration_order; false is a ValueError. -/
def validateMigrationOrder (pending applied : List Version) : Bool :=
  let nums := (pending.map number).insertionSort (· ≤ ·)
  (nums.zip nums.tail).all fun p =>
    p.2 == p.1 + 1 || (List.range' (p.1 + 1) (p.2 - (p.1 + 1))).all (applied.map number).contains

def applyEach (dryRun : Bool) (attempt : Migration → Attempt) (applied : List Version) :
    List Migration → State → List Run × State
  | [], s => ([], s)
  | m :: pending, s =>
    match e.validateDependencies m applied with
    | .error _ => ([], s)
    | .ok _ =>
      match e.executeMigration (attempt m) m dryRun false s with
      | (.error _, t) => ([], t)
      | (.ok _, t) =>
        let rest := applyEach dryRun attempt (applied ++ [m.version]) pending t
        (⟨m, s, t⟩ :: rest.1, rest.2)

def applyAllPending (dryRun : Bool) (attempt : Migration → Attempt) (s : State) :
    Except Error (List Run) × State :=
  let pending := getPendingMigrations e.python e.dir s
  let applied := s.getAppliedMigrations
  if validateMigrationOrder (pending.map Migration.version) applied then
    let done := e.applyEach dryRun attempt applied pending s
    (.ok done.1, done.2)
  else (.error .gap, s)

/-- `completes` is a valid file with a `down` whose SQL completes. -/
def rollbackMigration (v : Version) (completes recorded : Bool) (s : State) :
    Except Error Unit × State :=
  match s.getMigrationStatus v with
  | none => (.error .notInHistory, s)
  | some r =>
    if r.status = .completed then
      match (getMigrationFiles e.dir).find? fun p => p.1 = v with
      | none => (.error .fileNotFound, s)
      | some _ =>
        if completes && recorded then (.ok (), s.recordRollback v) else (.error .raised, s)
    else (.error (.cannotRollBack r.status), s)

end Env

end Plexichat.Migrations
