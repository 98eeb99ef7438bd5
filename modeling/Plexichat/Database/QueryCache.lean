import Plexichat.Database.Transactions
import Plexichat.Library.Caches

/-! core/database/core/execution.py: the query cache in front of the database, for one thread whose
connection lasts. What the database makes of a statement, at a time and on its tables, is a
parameter. Times are in milliseconds. -/
namespace Plexichat.Database

structure Answer (ρ : Type) where
  rows : List ρ
  rowcount : Nat
  deriving DecidableEq

inductive Value (ρ : Type) where
  | one (row : Option ρ)
  | all (rows : List ρ)
  deriving DecidableEq

variable {π ρ τ : Type}

def Value.isNone : Value ρ → Bool
  | .one none => true
  | _ => false

def Kind.value (kind : Kind) (answer : Answer ρ) : Value ρ :=
  match kind with
  | .one => .one answer.rows.head?
  | .all => .all answer.rows

def queryCacheTtl : Nat := 1000
def queryCacheMax : Nat := 100

abbrev QueryCache (π ρ : Type) := Lru.Store (Key π) (Value ρ)

structure Moment where
  now : Nat
  stored : Nat

inductive Request (π : Type) where
  | execute (q : Statement π) (autoCommit : Bool)
  | executeMany (text : List Char) (params : List π) (autoCommit : Bool)
  | insertOrIgnore (table : List Char) (columns : List (List Char)) (values : π)
  | upsert (table : List Char) (columns : List (List Char)) (values : π)
      (conflict : List (List Char)) (update : Option (List (List Char)))
  /-- An INSERT, UPDATE or DELETE of the query builder. -/
  | build (q : Statement π)
  | beginTransaction
  | commit
  | rollback
  | fetch (kind : Kind) (q : Statement π)

inductive Result (ρ : Type) where
  | answer (a : Answer ρ)
  | value (v : Value ρ)
  | inserted (b : Bool)
  | done
  deriving DecidableEq

abbrev Outcome (ρ : Type) := Except Error (Result ρ)

def quiet : Acquisition := ⟨.quiet, true, none⟩
def calm : Execution := ⟨fun _ => ⟨quiet, .done⟩, .done, .done⟩
def calmControl : Control := ⟨quiet, .done⟩

variable (run : Statement π → Nat → Effect τ (Answer ρ)) (engine : Engine)

/-- The statement that `insert_or_ignore` executes. -/
def insertOrIgnoreStatement (table : List Char) (columns : List (List Char)) (values : π) :
    Except Error (Statement π) := do
  let table ← sanitizeIdentifier engine table
  let columns ← columns.mapM (sanitizeIdentifier engine)
  return ⟨insertOrIgnoreQuery engine table columns, values⟩

/-- The statement that `upsert` executes: `insert_or_ignore`'s when nothing is to be updated. -/
def upsertStatement (table : List Char) (columns : List (List Char)) (values : π)
    (conflict : List (List Char)) (update : Option (List (List Char))) :
    Except Error (Statement π) := do
  let safeTable ← sanitizeIdentifier engine table
  let safeColumns ← columns.mapM (sanitizeIdentifier engine)
  let safeConflict ← conflict.mapM (sanitizeIdentifier engine)
  let safeUpdates ← (update.getD (columns.filter fun c => !conflict.contains c)).mapM
    (sanitizeIdentifier engine)
  if safeUpdates = [] then insertOrIgnoreStatement engine table columns values
  else return ⟨upsertQuery engine safeTable safeColumns safeConflict safeUpdates, values⟩

namespace Session

variable (s : Session τ)

def fetchRows (kind : Kind) (q : Statement π) (now : Nat) : Except Error (Value ρ) × Session τ :=
  let (r, s) := s.read engine q.releases (run q now) calm none
  (r.map kind.value, s)

def serve (now : Nat) : Request π → Outcome ρ × Session τ
  | .execute q autoCommit =>
    let (r, s) := s.execute engine q.releases (run q now) autoCommit calm
    (r.map .answer, s)
  | .executeMany text params autoCommit =>
    let (r, s) := s.executeMany engine (params.map fun p => run ⟨text, p⟩ now) autoCommit calm
    (r.map fun _ => .done, s)
  | .insertOrIgnore table columns values =>
    match insertOrIgnoreStatement engine table columns values with
    | .error e => (.error e, s)
    | .ok q =>
      let (r, s) := s.execute engine q.releases (run q now) true calm
      (r.map fun a => .inserted (decide (0 < a.rowcount)), s)
  | .upsert table columns values conflict update =>
    match upsertStatement engine table columns values conflict update with
    | .error e => (.error e, s)
    | .ok q =>
      let (r, s) := s.execute engine q.releases (run q now) true calm
      (r.map fun _ => .done, s)
  | .build q =>
    let (r, s) := s.build engine (run q now) calm
    (r.map .answer, s)
  | .beginTransaction =>
    let (r, s) := s.beginTransaction engine calmControl
    (r.map fun _ => .done, s)
  | .commit =>
    let (r, s) := s.commit engine calmControl
    (r.map fun _ => .done, s)
  | .rollback =>
    let (r, s) := s.rollback engine calmControl
    (r.map fun _ => .done, s)
  | .fetch kind q =>
    let (r, s) := s.fetchRows run engine kind q now
    (r.map .value, s)

def serveAll (s : Session τ) : List (Moment × Request π) → List (Outcome ρ) × Session τ
  | [] => ([], s)
  | (m, request) :: rest =>
    let (outcome, s) := s.serve run engine m.now request
    let (outcomes, s) := s.serveAll rest
    (outcome :: outcomes, s)

end Session

structure Cached (π ρ τ : Type) where
  session : Session τ
  cache : QueryCache π ρ

namespace Cached

variable [DecidableEq π] (c : Cached π ρ τ)

def clear : Cached π ρ τ := { c with cache := .empty }

def pass (now : Nat) (request : Request π) : Outcome ρ × Cached π ρ τ :=
  let (outcome, session) := c.session.serve run engine now request
  (outcome, { c with session })

/-- `_cache_get`. A None that is kept is taken for a miss. -/
def cacheGet (now : Nat) (key : Key π) : Option (Value ρ) × Cached π ρ τ :=
  let (hit, cache) := Lru.get now key c.cache
  (hit.filter fun v => !v.isNone, { c with cache })

def cachePut (stored : Nat) (key : Key π) (value : Value ρ) : Cached π ρ τ :=
  { c with cache := Lru.put queryCacheMax ⟨key, stored + queryCacheTtl, value⟩ c.cache }

/-- What `execute` does to the cache before its statement. -/
def executing (q : Statement π) : Cached π ρ τ := if q.clearsCache then c.clear else c

/-- `fetch_one` and `fetch_all`. -/
def fetch (m : Moment) (kind : Kind) (q : Statement π) :
    Except Error (Value ρ) × Cached π ρ τ :=
  match c.cacheGet m.now ⟨kind, q⟩ with
  | (some value, c) => (.ok value, c)
  | (none, c) =>
    let c := c.executing q
    let (r, session) := c.session.fetchRows run engine kind q m.now
    let c := { c with session }
    match r with
    | .error e => (.error e, c)
    | .ok value => (.ok value, c.cachePut m.stored ⟨kind, q⟩ value)

def serve (m : Moment) (request : Request π) : Outcome ρ × Cached π ρ τ :=
  match request with
  | .execute q _ => (c.executing q).pass run engine m.now request
  | .executeMany _ _ _ => c.pass run engine m.now request
  | .insertOrIgnore table columns values =>
    match insertOrIgnoreStatement engine table columns values with
    | .error e => (.error e, c)
    | .ok q => (c.executing q).pass run engine m.now request
  | .upsert table columns values conflict update =>
    match upsertStatement engine table columns values conflict update with
    | .error e => (.error e, c)
    | .ok q => (c.executing q).pass run engine m.now request
  | .build _ =>
    match c.pass run engine m.now request with
    | (.error e, c) => (.error e, c)
    | (.ok r, c) => (.ok r, c.clear)
  | .beginTransaction => c.clear.pass run engine m.now request
  | .commit => c.clear.pass run engine m.now request
  | .rollback => c.clear.pass run engine m.now request
  | .fetch kind q =>
    let (r, c) := c.fetch run engine m kind q
    (r.map .value, c)

def serveAll (c : Cached π ρ τ) : List (Moment × Request π) → List (Outcome ρ) × Cached π ρ τ
  | [] => ([], c)
  | (m, request) :: rest =>
    let (outcome, c) := c.serve run engine m request
    let (outcomes, c) := c.serveAll rest
    (outcome :: outcomes, c)

end Cached

end Plexichat.Database
