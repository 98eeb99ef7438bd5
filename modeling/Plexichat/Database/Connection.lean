import Plexichat.Database.Statements

/-! core/database/core/connection.py: one thread, its connection and the database behind it. What
the tables hold is a value of `τ`. What becomes of a command, and of the connection between two
uses, is given from outside. -/
namespace Plexichat.Database

variable {τ α : Type}

/-- An open transaction: the tables as it sees them, what they were at each savepoint (innermost
first, with the number in its name), and whether BEGIN opened it. -/
structure Work (τ : Type) where
  tables : τ
  savepoints : List (Nat × τ)
  explicit : Bool
  aborted : Bool

def Work.begun (tables : τ) : Work τ := ⟨tables, [], true, false⟩

/-- A connection that serves with the transaction open on it, one whose other end is gone, and one
that is closed on this end. A transaction does not outlive its connection. -/
inductive Connection (τ : Type) where
  | up (work : Option (Work τ))
  | down
  | closed

inductive Event where
  | quiet | dropped | closed
  deriving DecidableEq

def Connection.meets : Connection τ → Event → Connection τ
  | .closed, _ => .closed
  | _, .closed => .closed
  | _, .dropped => .down
  | c, .quiet => c

def Connection.isClosed : Connection τ → Bool
  | .closed => true
  | _ => false

/-- What becomes of a command: it does what it says, or fails (with SQLite rolling back its
transaction or not), or the connection is lost on it (with the command having taken effect or not). -/
inductive Fate where
  | done
  | fails (e : Error) (rolledBack : Bool)
  | dropped (e : Error) (applied : Bool)

def closedDatabase : Error := ⟨"ProgrammingError", "Cannot operate on a closed database."⟩

def Fate.error : Fate → Error
  | .done => closedDatabase
  | .fails e _ => e
  | .dropped e _ => e

/-- `_local` beside the tables that are committed. -/
structure Session (τ : Type) where
  committed : τ
  connection : Option (Connection τ)
  depth : Nat
  inTransaction : Bool

/-- One call of `_get_conn`: whether its checks of age, idle time and validity pass, and the
exception of the pool when it has no connection. -/
structure Acquisition where
  event : Event
  passes : Bool
  refused : Option Error

abbrev Disk (τ : Type) := τ × Option (Work τ)

abbrev Command (τ α : Type) := Disk τ → Except Error α × Disk τ

/-- A statement on the tables: an answer, or an exception that leaves them alone. -/
abbrev Effect (τ α : Type) := τ → Except Error (α × τ)

def Engine.afterFailure (engine : Engine) (disk : Disk τ) (rolledBack : Bool) : Option (Work τ) :=
  match engine with
  | .sqlite => if rolledBack then none else disk.2
  | .postgres => some { disk.2.getD (.begun disk.1) with aborted := true }

namespace Command

def aborted : Error :=
  ⟨"DatabaseError", "current transaction is aborted, commands ignored until end of transaction block"⟩

/-- A statement outside a transaction is kept at once by SQLite; PostgreSQL's driver opens one. -/
def statement (engine : Engine) (effect : Effect τ α) : Command τ α := fun (committed, work) =>
  match engine, work with
  | .sqlite, none =>
    match effect committed with
    | .ok (answer, tables) => (.ok answer, tables, none)
    | .error e => (.error e, committed, none)
  | .sqlite, some w =>
    match effect w.tables with
    | .ok (answer, tables) => (.ok answer, committed, some { w with tables })
    | .error e => (.error e, committed, some w)
  | .postgres, _ =>
    let w := work.getD (.begun committed)
    if w.aborted then (.error aborted, committed, some w)
    else
      match effect w.tables with
      | .ok (answer, tables) => (.ok answer, committed, some { w with tables })
      | .error e => (.error e, committed, some { w with aborted := true })

/-- `executemany`: one statement after the other. -/
def many (engine : Engine) : List (Effect τ α) → Command τ Unit
  | [], disk => (.ok (), disk)
  | effect :: effects, disk =>
    match statement engine effect disk with
    | (.ok _, disk) => many engine effects disk
    | (.error e, disk) => (.error e, disk)

def begin : Command τ Unit := fun (committed, work) =>
  match work with
  | none => (.ok (), committed, some (.begun committed))
  | some w => (.error ⟨"OperationalError", "cannot start a transaction within a transaction"⟩,
      committed, some w)

def commit (engine : Engine) : Command τ Unit := fun (committed, work) =>
  match engine, work with
  | .sqlite, none =>
    (.error ⟨"OperationalError", "cannot commit - no transaction is active"⟩, committed, none)
  | .postgres, none => (.ok (), committed, none)
  | _, some w =>
    if w.aborted then (.error ⟨"InterfaceError", "in failed transaction block"⟩, committed, none)
    else (.ok (), w.tables, none)

def rollback (engine : Engine) : Command τ Unit := fun (committed, work) =>
  match engine, work with
  | .sqlite, none =>
    (.error ⟨"OperationalError", "cannot rollback - no transaction is active"⟩, committed, none)
  | _, _ => (.ok (), committed, none)

def savepoint (engine : Engine) (n : Nat) : Command τ Unit := fun (committed, work) =>
  let w := work.getD { Work.begun committed with explicit := decide (engine = .postgres) }
  if w.aborted then (.error aborted, committed, some w)
  else (.ok (), committed, some { w with savepoints := (n, w.tables) :: w.savepoints })

def noSavepoint : Error := ⟨"OperationalError", "no such savepoint"⟩

def release (engine : Engine) (n : Nat) : Command τ Unit := fun (committed, work) =>
  match work with
  | none => (.error noSavepoint, committed, engine.afterFailure (committed, none) false)
  | some w =>
    match w.savepoints.dropWhile fun p => p.1 ≠ n with
    | [] => (.error noSavepoint, committed, engine.afterFailure (committed, some w) false)
    | _ :: savepoints =>
      if w.aborted then (.error aborted, committed, some w)
      else if savepoints = [] ∧ w.explicit = false then (.ok (), w.tables, none)
      else (.ok (), committed, some { w with savepoints })

def rollbackTo (engine : Engine) (n : Nat) : Command τ Unit := fun (committed, work) =>
  match work with
  | none => (.error noSavepoint, committed, engine.afterFailure (committed, none) false)
  | some w =>
    match w.savepoints.dropWhile fun p => p.1 ≠ n with
    | [] => (.error noSavepoint, committed, engine.afterFailure (committed, some w) false)
    | (m, tables) :: savepoints =>
      (.ok (), committed, some ⟨tables, (m, tables) :: savepoints, w.explicit, false⟩)

end Command

namespace Session

variable (s : Session τ)

def reset : Session τ := { s with depth := 0, inTransaction := false }

def send (engine : Engine) (command : Command τ α) (fate : Fate) : Except Error α × Session τ :=
  match s.connection with
  | some (.up work) =>
    match fate with
    | .done =>
      let (r, committed, work) := command (s.committed, work)
      (r, { s with committed, connection := some (.up work) })
    | .fails e rolledBack =>
      (.error e, { s with
        connection := some (.up (engine.afterFailure (s.committed, work) rolledBack)) })
    | .dropped e applied =>
      let committed := if applied then (command (s.committed, work)).2.1 else s.committed
      (.error e, { s with committed, connection := some .down })
  | _ => (.error fate.error, s)

/-- `conn.rollback()`. -/
def rollbackConn : Except Error Unit × Session τ :=
  match s.connection with
  | some (.up _) => (.ok (), { s with connection := some (.up none) })
  | _ => (.error closedDatabase, s)

/-- `conn.commit()`, which does nothing in SQLite's autocommit mode. -/
def commitConn (engine : Engine) (fate : Fate) : Except Error Unit × Session τ :=
  match engine, s.connection with
  | .sqlite, some (.up none) => (.ok (), s)
  | _, _ => s.send engine (.commit engine) fate

def connect (refused : Option Error) : Except Error Unit × Session τ :=
  match refused with
  | some e => (.error e, { s with connection := none })
  | none => (.ok (), { s with connection := some (.up none) }.reset)

def getConn (a : Acquisition) : Except Error Unit × Session τ :=
  match s.connection with
  | none => s.connect a.refused
  | some c =>
    let c := c.meets a.event
    if a.passes && !c.isClosed then (.ok (), { s with connection := some c })
    else s.connect a.refused

def releaseConn (engine : Engine) : Session τ :=
  match engine, s.connection with
  | .sqlite, some (.up none) =>
    if 0 < s.depth || s.inTransaction then s else { s with connection := none }
  | _, _ => s

end Session

end Plexichat.Database
