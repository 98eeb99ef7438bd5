import Mathlib.Data.List.Infix
import Plexichat.Library.Text

/-! core/database: what execution.py, transactions.py and maintenance.py read off the text of a
statement and off an exception. Letters are ASCII. -/
namespace Plexichat.Database

inductive Engine where
  | sqlite | postgres
  deriving DecidableEq

structure Statement (π : Type) where
  text : List Char
  params : π
  deriving DecidableEq

def startsWith (text : List Char) (words : List String) : Bool :=
  words.any fun word => word.toList.isPrefixOf text

/-- `word in text`. -/
def contains (text : List Char) (word : String) : Bool := decide (word.toList <:+: text)

namespace Statement

variable {π : Type} (q : Statement π)

/-- `query.strip().upper()`. -/
def upperQuery : List Char := (Text.strip q.text).map Char.toUpper

/-- The statements before which `execute` empties the query cache. -/
def clearsCache : Bool :=
  startsWith q.upperQuery ["INSERT", "UPDATE", "DELETE", "REPLACE", "DROP", "CREATE", "ALTER"]

/-- The statements after which `execute` gives the connection back itself. -/
def releases : Bool :=
  !startsWith q.upperQuery ["SELECT", "PRAGMA", "WITH", "EXPLAIN"] &&
    !contains q.upperQuery "RETURNING"

end Statement

inductive Kind where
  | one | all
  deriving DecidableEq

structure Key (π : Type) where
  kind : Kind
  statement : Statement π
  deriving DecidableEq

structure Error where
  typeName : String
  message : String
  deriving DecidableEq

namespace Error

variable (e : Error)

/-- `any(phrase in str(e).lower() for phrase in phrases)`. -/
def mentions (phrases : List String) : Bool :=
  phrases.any (contains (e.message.toList.map Char.toLower))

def isA (name : String) : Bool := contains e.typeName.toList name

def isConnectionError : Bool :=
  e.mentions ["connection refused", "connection reset", "connection closed", "closed database",
    "no connection", "disconnected", "broken pipe", "lost connection", "database is locked"] ||
  e.isA "InterfaceError" ||
  (e.isA "DatabaseError" && e.mentions ["connection"]) ||
  (e.isA "OperationalError" && e.mentions ["connection", "closed", "disconnected", "broken pipe"])

def isSchemaError : Bool :=
  e.mentions ["no such column", "no such table", "no such index", "no such view", "duplicate column",
    "already exists"]

def isNoTransaction : Bool := e.mentions ["cannot commit", "cannot rollback", "no transaction"]

def isRetried (inTransaction : Bool) : Bool :=
  e.isConnectionError && !inTransaction && !e.isSchemaError

@[simp] theorem isRetried_true : e.isRetried true = false := by simp [isRetried]

end Error

section Generated

variable (engine : Engine)

def isIdentifierStart (c : Char) : Bool := c.isAlpha || c = '_'

/-- `^[a-zA-Z_][a-zA-Z0-9_]*$`, where `$` also stands before a line break at the end. -/
def isIdentifier : List Char → Bool
  | [] => false
  | c :: rest => isIdentifierStart c &&
      match rest.dropWhile fun d => isIdentifierStart d || d.isDigit with
      | [] => true
      | tail => tail = ['\n']

def sanitizeIdentifier (identifier : List Char) : Except Error (List Char) :=
  if isIdentifier identifier then
    let quote := match engine with
      | .postgres => '"'
      | .sqlite => '`'
    .ok (quote :: identifier ++ [quote])
  else .error ⟨"ValueError", "Invalid database identifier: " ++ String.ofList identifier⟩

def commas (parts : List (List Char)) : List Char := ", ".toList.intercalate parts

def insertQuery (start : String) (table : List Char) (columns : List (List Char)) : List Char :=
  start.toList ++ table ++ " (".toList ++ commas columns ++ ") VALUES (".toList ++
    commas (columns.map fun _ => ['?']) ++ [')']

def insertOrIgnoreQuery (table : List Char) (columns : List (List Char)) : List Char :=
  match engine with
  | .sqlite => insertQuery "INSERT OR IGNORE INTO " table columns
  | .postgres => insertQuery "INSERT INTO " table columns ++ " ON CONFLICT DO NOTHING".toList

def upsertQuery (table : List Char) (columns conflict updates : List (List Char)) : List Char :=
  let excluded := match engine with
    | .sqlite => "excluded."
    | .postgres => "EXCLUDED."
  insertQuery "INSERT INTO " table columns ++ " ON CONFLICT (".toList ++ commas conflict ++
    ") DO UPDATE SET ".toList ++ commas (updates.map fun c => c ++ " = ".toList ++ excluded.toList ++ c)

variable {π : Type} {engine}

theorem clearsCache_of_insert (params : π) (rest : List Char) :
    (⟨"INSERT".toList ++ rest, params⟩ : Statement π).clearsCache = true := by
  have text : "INSERT".toList ++ rest = 'I' :: "NSER".toList ++ 'T' :: rest := rfl
  obtain ⟨rest', kept⟩ := Text.strip_append (c := 'I') (d := 'T') (by decide) (by decide)
    "NSER".toList rest
  rw [Statement.clearsCache, Statement.upperQuery, text, kept]
  rfl

theorem clearsCache_insertOrIgnoreQuery (table : List Char) (columns : List (List Char))
    (params : π) :
    (⟨insertOrIgnoreQuery engine table columns, params⟩ : Statement π).clearsCache = true := by
  cases engine with
  | sqlite => exact clearsCache_of_insert params _
  | postgres => exact clearsCache_of_insert params _

theorem clearsCache_upsertQuery (table : List Char) (columns conflict updates : List (List Char))
    (params : π) :
    (⟨upsertQuery engine table columns conflict updates, params⟩ : Statement π).clearsCache =
      true := clearsCache_of_insert params _

end Generated

end Plexichat.Database
