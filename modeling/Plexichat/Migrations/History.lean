import Mathlib.Data.List.Sort
import Plexichat.Library.Table
import Plexichat.Library.Text

/-! core/migrations: the files of the migrations directory, as validator.py and manager.py read
them, and the tables in which tracker.py records what was applied. A migration's own SQL leaves
these tables alone. Times are in seconds. -/
namespace Plexichat.Migrations

abbrev Version := List Char

structure Metadata where
  irreversible : Bool
  dependsOn : List Version

structure File where
  filename : List Char
  content : List Char

/-- hashlib, json.loads of a metadata block, and the docstring of a module, as it stands (`doc`) and
with its indentation taken away (`cleandoc`). -/
structure Python where
  sha256 : List Char → List Char
  loads : List Char → Option Metadata
  doc : List Char → Option (List Char)
  cleandoc : List Char → List Char

structure Migration where
  version : Version
  file : File
  checksum : List Char
  dependsOn : List Version

section Files

def isdigit (t : List Char) : Bool := !t.isEmpty && t.all Char.isDigit

def number (v : Version) : Nat := Nat.ofDigitChars 10 v 0

def versionOf (f : File) : Option Version :=
  let part := f.filename.takeWhile (· != '_')
  if ".py".toList.isSuffixOf f.filename && f.filename != "__init__.py".toList && isdigit part then
    some part
  else none

/-- validator.get_migration_files -/
def getMigrationFiles (dir : List File) : List (Version × File) :=
  (dir.filterMap fun f => (versionOf f).map fun v => (v, f)).insertionSort fun a b =>
    number a.1 ≤ number b.1

def extractDependencies (content : List Char) : List Version :=
  let lines := (Text.split '\n' content.length content).map Text.strip
  match lines.find? ("Depends:".toList.isPrefixOf ·) with
  | none => []
  | some line =>
    let deps := Text.strip (line.drop "Depends:".length)
    ((Text.split ',' deps.length deps).map Text.strip).filter fun d => !d.isEmpty

/-- `\{.*?\}` after its first brace: up to the first closing one with a rest that `closes`. -/
def braces (closes : List Char → Bool) : List Char → Option (List Char)
  | [] => none
  | c :: rest =>
    if c == '}' && closes rest then some [c] else (braces closes rest).map (c :: ·)

def endsLine (space : List Char) : Bool := space.getLast? == some '\n'

/-- `MIGRATION_METADATA:\s*\n` and the braces, at the start of a text. -/
def metadataAt (closes : List Char → Bool) (t : List Char) : Option (List Char) :=
  let body := t.drop "MIGRATION_METADATA:".length
  if "MIGRATION_METADATA:".toList.isPrefixOf t && endsLine (body.takeWhile Text.isSpace) then
    match body.dropWhile Text.isSpace with
    | '{' :: rest => (braces closes rest).map ('{' :: ·)
    | _ => none
  else none

def metadataBlock (closes : List Char → Bool) : List Char → Option (List Char)
  | [] => none
  | c :: t => (metadataAt closes (c :: t)).or (metadataBlock closes t)

/-- `\s*(?:\n"""|$)` -/
def endsDocstring (rest : List Char) : Bool :=
  let after := rest.dropWhile Text.isSpace
  after.isEmpty || (endsLine (rest.takeWhile Text.isSpace) && ['"', '"', '"'].isPrefixOf after)

variable (py : Python)

def metadataFrom (closes : List Char → Bool) (doc : Option (List Char)) : Metadata :=
  ((doc.bind (metadataBlock closes)).bind py.loads).getD ⟨false, []⟩

/-- validator.migration_metadata_from_docstring -/
def metadataFromDocstring (doc : Option (List Char)) : Metadata := metadataFrom py (fun _ => true) doc

def migrationFileIsIrreversible (f : File) : Bool :=
  (metadataFromDocstring py ((py.doc f.content).map py.cleandoc)).irreversible

/-- tracker.get_migration_metadata: the file it looks for is named after the version alone. -/
def getMigrationMetadata (dir : List File) (v : Version) : Metadata :=
  match dir.find? fun f => f.filename == v ++ ".py".toList with
  | none => ⟨false, []⟩
  | some f => metadataFrom py endsDocstring (py.doc f.content)

end Files

section Tables

inductive Status where
  | running | completed | failed | rolledBack
  deriving DecidableEq

/-- migrations_history, with the rows in the order of their ids -/
structure Row where
  version : Version
  checksum : List Char
  status : Status
  appliedAt : Nat

/-- migration_uptime -/
structure Session where
  id : Nat
  startTime : Nat
  uptimeSeconds : Nat

/-- emergency_override_tokens -/
structure Token where
  hash : List Char
  used : Bool
  expiresAt : Nat

structure State where
  history : Table Row Row.version
  uptime : Table Session Session.id
  session : Option Nat
  tokens : Table Token Token.hash

namespace State

variable (s : State)

def getMigrationStatus (v : Version) : Option Row := s.history.find v

def getAppliedMigrations : List Version :=
  (s.history.rows.filter fun r => r.status = .completed).map Row.version

def recordMigrationStart (now : Nat) (m : Migration) : State :=
  let again (r : Row) : Row := { r with checksum := m.checksum, status := .running }
  { s with history := s.history.upsert ⟨m.version, m.checksum, .running, now⟩ again fun _ => rfl }

def setStatus (v : Version) (status : Status) : State :=
  let mark (r : Row) : Row := { r with status := status }
  { s with history := s.history.update (fun r => r.version = v) mark fun _ => rfl }

def recordMigrationSuccess (v : Version) : State := s.setStatus v .completed

def recordMigrationFailure (v : Version) : State := s.setStatus v .failed

def recordRollback (v : Version) : State := s.setStatus v .rolledBack

end State

def getPendingMigrations (py : Python) (dir : List File) (s : State) : List Migration :=
  let pending := (getMigrationFiles dir).filter fun p => !s.getAppliedMigrations.contains p.1
  pending.map fun p =>
    ⟨p.1, p.2, py.sha256 p.2.content, extractDependencies p.2.content⟩

end Tables

section Lemmas

variable {s : State} {v u : Version} {dir : List File} {py : Python} {m : Migration}

def Completed (s : State) (v : Version) : Prop :=
  ∃ r, s.history.find v = some r ∧ r.status = .completed

def Distinct (dir : List File) : Prop := ((getMigrationFiles dir).map Prod.fst).Nodup

theorem mem_getAppliedMigrations : v ∈ s.getAppliedMigrations ↔ Completed s v := by
  unfold State.getAppliedMigrations Completed
  simp only [List.mem_map, List.mem_filter, decide_eq_true_eq]
  constructor
  · rintro ⟨r, ⟨member, done⟩, named⟩
    exact ⟨r, Table.find_eq_some.mpr ⟨member, named⟩, done⟩
  · rintro ⟨r, found, done⟩
    obtain ⟨member, named⟩ := Table.find_eq_some.mp found
    exact ⟨r, ⟨member, done⟩, named⟩

theorem mem_getMigrationFiles {f : File} :
    (v, f) ∈ getMigrationFiles dir ↔ f ∈ dir ∧ versionOf f = some v := by
  unfold getMigrationFiles
  simp only [List.mem_insertionSort, List.mem_filterMap, Option.map_eq_some_iff]
  constructor
  · rintro ⟨f', member, v', named, same⟩
    cases same
    exact ⟨member, named⟩
  · rintro ⟨member, named⟩
    exact ⟨f, member, v, named, rfl⟩

theorem mem_getPendingMigrations (pending : m ∈ getPendingMigrations py dir s) :
    (m.version, m.file) ∈ getMigrationFiles dir ∧ ¬Completed s m.version ∧
      m.checksum = py.sha256 m.file.content ∧ m.dependsOn = extractDependencies m.file.content := by
  unfold getPendingMigrations at pending
  obtain ⟨p, kept, rfl⟩ := List.mem_map.mp pending
  obtain ⟨member, fresh⟩ := List.mem_filter.mp kept
  refine ⟨member, ?_, rfl, rfl⟩
  intro done
  have applied := mem_getAppliedMigrations.mpr done
  simp [applied] at fresh

theorem pending_once (distinct : Distinct dir) :
    ((getPendingMigrations py dir s).map Migration.version).Nodup := by
  unfold getPendingMigrations
  rw [List.map_map]
  exact distinct.sublist (List.filter_sublist.map _)

theorem completed_setStatus {status : Status} :
    Completed (s.setStatus v status) u ↔
      if u = v then status = .completed ∧ (s.history.find v).isSome else Completed s u := by
  unfold Completed State.setStatus
  simp only [Table.find_update]
  by_cases same : u = v
  · subst same
    cases found : s.history.find u with
    | none => simp
    | some r =>
      have named := (Table.find_eq_some.mp found).2
      simp [named]
  · cases found : s.history.find u with
    | none => simp [same]
    | some r =>
      have named := (Table.find_eq_some.mp found).2
      simp [named, same]

theorem completed_recordMigrationStart {now : Nat} :
    Completed (s.recordMigrationStart now m) u ↔ u ≠ m.version ∧ Completed s u := by
  unfold Completed State.recordMigrationStart
  simp only [Table.find_upsert]
  by_cases same : m.version = u
  · subst same
    cases found : s.history.find m.version <;> simp
  · simp [same, Ne.symm same]

theorem completed_recordRollback :
    Completed (s.recordRollback v) u ↔ u ≠ v ∧ Completed s u := by
  rw [State.recordRollback, completed_setStatus]
  by_cases same : u = v <;> simp [same]

end Lemmas

end Plexichat.Migrations
