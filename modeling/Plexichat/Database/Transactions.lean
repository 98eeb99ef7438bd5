import Plexichat.Database.Connection

/-! core/database/core: execution.py, transactions.py and `_handle_execution_error` of
maintenance.py below the query cache, for one thread. `_validate_transaction_state` is left out: it
opens a cursor with a `with` statement, pg8000's cursors are no context managers here, and the
TypeError is swallowed. -/
namespace Plexichat.Database

variable {τ α : Type}

def savepointLost (cause : Error) : Error := ⟨"RuntimeError",
  "Savepoint rollback failed; the outer transaction was fully rolled back: " ++ cause.message⟩

structure Attempt where
  acquisition : Acquisition
  fate : Fate

/-- What a call of `execute` meets: the rounds left give the attempt; a commit is tried twice. -/
structure Execution where
  attempt : Nat → Attempt
  commit : Fate
  retried : Fate

/-- What `begin_transaction`, `commit` and `rollback` meet. -/
structure Control where
  acquisition : Acquisition
  fate : Fate

namespace Session

variable (engine : Engine)

/-- The exception that is raised in the end, and what the cleanup leaves. -/
def handleExecutionError (e : Error) (s : Session τ) : Error × Session τ :=
  match engine, s.connection with
  | _, none => (e, s)
  | .sqlite, some _ => if s.inTransaction then (e, s) else (e, s.rollbackConn.2)
  | .postgres, some .closed => (e, s.reset)
  | .postgres, some _ =>
    if 1 < s.depth then
      match s.send engine (.rollbackTo engine s.depth) .done with
      | (.ok (), s) => (e, s)
      | (.error cause, s) => (savepointLost cause, s.rollbackConn.2.reset)
    else if s.depth = 1 then (e, s.rollbackConn.2.reset)
    else
      match s.rollbackConn with
      | (.ok (), s) => (e, { s with inTransaction := false })
      | (.error _, s) => (e, s)

def attempt (command : Command τ α) (a : Attempt) (s : Session τ) : Except Error α × Session τ :=
  match s.getConn a.acquisition with
  | (.error e, s) => (.error e, s)
  | (.ok (), s) => s.send engine command a.fate

def failed (e : Error) (s : Session τ) : Except Error α × Session τ :=
  let (e, s) := s.handleExecutionError engine e
  (.error e, s)

/-- `for attempt in range(3)`, by the rounds that are left after this one. -/
def attempts (command : Command τ α) (a : Nat → Attempt) :
    Nat → Session τ → Except Error α × Session τ
  | 0, s =>
    match s.attempt engine command (a 0) with
    | (.ok answer, s) => (.ok answer, s)
    | (.error e, s) => s.failed engine e
  | n + 1, s =>
    match s.attempt engine command (a (n + 1)) with
    | (.ok answer, s) => (.ok answer, s)
    | (.error e, s) =>
      if e.isRetried s.inTransaction then attempts command a n { s with connection := none }
      else s.failed engine e

def commitStrict (x : Execution) (s : Session τ) : Except Error Unit × Session τ :=
  match s.commitConn engine x.commit with
  | (.ok (), s) => (.ok (), s)
  | (.error _, s) => s.commitConn engine x.retried

/-- What `execute` and `execute_many` share: the retry loop, the commit, the release. -/
def perform (command : Command τ α) (autoCommit releases : Bool) (x : Execution) (s : Session τ) :
    Except Error α × Session τ :=
  match s.attempts engine command x.attempt 2 with
  | (.error e, s) => (.error e, s)
  | (.ok answer, s) =>
    let (r, s) := if autoCommit && !s.inTransaction then s.commitStrict engine x else (.ok (), s)
    match r with
    | .error e => (.error e, s)
    | .ok () => (.ok answer, if releases then s.releaseConn engine else s)

def execute (releases : Bool) (effect : Effect τ α) (autoCommit : Bool) (x : Execution)
    (s : Session τ) : Except Error α × Session τ :=
  s.perform engine (.statement engine effect) autoCommit releases x

def executeMany (effects : List (Effect τ α)) (autoCommit : Bool) (x : Execution) (s : Session τ) :
    Except Error Unit × Session τ :=
  s.perform engine (.many engine effects) autoCommit true x

/-- `fetch_one` and `fetch_all` when the query cache has no answer; reading the rows may fail. -/
def read (releases : Bool) (effect : Effect τ α) (x : Execution) (rows : Option Error)
    (s : Session τ) : Except Error α × Session τ :=
  match s.execute engine releases effect true x with
  | (.error e, s) => (.error e, s)
  | (.ok answer, s) =>
    match rows with
    | some e => (.error e, s)
    | none => (.ok answer, s.releaseConn engine)

def build (effect : Effect τ α) (x : Execution) (s : Session τ) : Except Error α × Session τ :=
  match s.getConn (x.attempt 0).acquisition with
  | (.error e, s) => (.error e, s)
  | (.ok (), s) =>
    match s.send engine (.statement engine effect) (x.attempt 0).fate with
    | (.error e, s) => (.error e, if s.inTransaction then s else s.rollbackConn.2)
    | (.ok answer, s) =>
      if s.inTransaction then (.ok answer, s)
      else
        match s.commitConn engine x.commit with
        | (.error e, s) => (.error e, s.rollbackConn.2)
        | (.ok (), s) => (.ok answer, s)

def beginTransaction (b : Control) (s : Session τ) : Except Error Unit × Session τ :=
  match s.getConn b.acquisition with
  | (.error e, s) => (.error e, s)
  | (.ok (), s) =>
    if s.depth = 0 then
      match engine with
      | .sqlite =>
        match s.send engine .begin b.fate with
        | (.error e, s) => (.error e, s)
        | (.ok (), s) => (.ok (), { s with depth := 1, inTransaction := true })
      | .postgres => (.ok (), { s with depth := 1, inTransaction := true })
    else
      let s := { s with depth := s.depth + 1 }
      s.send engine (.savepoint engine s.depth) b.fate

def commit (c : Control) (s : Session τ) : Except Error Unit × Session τ :=
  match s.getConn c.acquisition with
  | (.error e, s) => (.error e, s)
  | (.ok (), s) =>
    if 1 < s.depth then
      match s.send engine (.release engine s.depth) c.fate with
      | (.ok (), s) => (.ok (), { s with depth := s.depth - 1 })
      | (.error e, s) =>
        match s.rollbackConn with
        | (.error e, s) => (.error e, s)
        | (.ok (), s) => (.error e, s.reset)
    else if s.depth = 1 then
      match s.send engine (.commit engine) c.fate with
      | (.ok (), s) => (.ok (), s.reset.releaseConn engine)
      | (.error e, s) =>
        if engine = .sqlite ∧ e.isNoTransaction then (.ok (), s.reset) else (.error e, s)
    else (.ok (), s)

def rollback (c : Control) (s : Session τ) : Except Error Unit × Session τ :=
  match s.getConn c.acquisition with
  | (.error e, s) => (.error e, s)
  | (.ok (), s) =>
    if 1 < s.depth then
      match s.send engine (.rollbackTo engine s.depth) c.fate with
      | (.ok (), s) => (.ok (), { s with depth := s.depth - 1 })
      | (.error e, s) =>
        if e.isNoTransaction then
          match s.rollbackConn with
          | (.error e, s) => (.error e, s)
          | (.ok (), s) => (.ok (), s.reset)
        else (.error e, s)
    else if s.depth = 1 then
      match s.send engine (.rollback engine) c.fate with
      | (.ok (), s) => (.ok (), s.reset.releaseConn engine)
      | (.error e, s) =>
        if engine = .sqlite ∧ e.isNoTransaction then (.ok (), s.reset) else (.error e, s)
    else
      match s.rollbackConn with
      | (.error e, s) => (.error e, s)
      | (.ok (), s) => (.ok (), { s with inTransaction := false })

end Session

end Plexichat.Database
