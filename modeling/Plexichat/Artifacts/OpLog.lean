import Mathlib.Data.Fintype.Fin
import Mathlib.Tactic.FinCases
import Plexichat.Library.Interleaving
import Plexichat.Library.JsonRoundTrip
import Plexichat.Library.Paging

/-! core/artifacts/repository.py: the operations log of one artifact. -/
namespace Plexichat.Artifacts.OpLog
open Transition Interleaving Json

variable {F : Type}

structure Data (F : Type) where
  value : Value F Str
  distinct : value.all (fun _ => true) (fun keys => decide keys.Nodup) = true

structure Op (F : Type) where
  opType : String
  actorId : Option Nat
  data : Data F

structure OpRow where
  seq : Nat
  opType : String
  actorId : Option Nat
  data : List Char
  createdAt : Nat

structure ReplayedOp (F : Type) where
  seq : Nat
  opType : String
  actorId : Option Nat
  createdAt : Nat
  op : Value F Str

def transientOpTypes : List String :=
  ["cursor", "snapshot_request", "typing", "selection", "presence", "presence_leave"]

def maxArtifactOpBytes : Nat := 256 * 1024

variable [Floats F]

def jsonDumps (limit : Nat) : Value F Str → Except Error (Option (List Char))
  | .null => .ok none
  | .str s => .ok (some (characters s))
  | v => (dumps limit v).map some

/-- `_json_loads` of a text. A RecursionError is not caught. -/
def jsonLoads (limit : Nat) (t : List Char) : Option (Value F Str) :=
  match loads limit t with
  | .ok v => some v
  | .error .value => some (.str (t.map .char))
  | .error .recursion => none

inductive Checked where
  | refused
  | raised
  | accepted (dataJson : Option (List Char))

def check (limit : Nat) (op : Op F) (found : Bool) : Checked :=
  if transientOpTypes.contains op.opType then .refused
  else match dumpsBy escapeRaw limit op.data.value with
    | .error .value => .refused
    | .error .recursion => .raised
    | .ok text =>
      if !encodable op.data.value ||
          decide (maxArtifactOpBytes < (text.map Char.utf8Size).sum) then .refused
      else if !found then .refused
      else match jsonDumps limit op.data.value with
        | .error _ => .raised
        | .ok dataJson => .accepted dataJson

def nextSeq (rows : List OpRow) : Nat := (rows.map OpRow.seq).foldl max 0 + 1

def replay (limit : Nat) (row : OpRow) : Option (ReplayedOp F) :=
  (jsonLoads limit row.data).map fun op => ⟨row.seq, row.opType, row.actorId, row.createdAt, op⟩

def listArtifactOps (depth : Nat) (rows : List OpRow) (afterSeq limit : Int) :
    List (ReplayedOp F) :=
  (Paging.batch (fun r => (r.seq : Int)) rows (max 1 (min limit 2000)).toNat
    (max 0 afterSeq)).filterMap (replay depth)

inductive Result where
  | seq (n : Nat)
  | none
  | raised
  deriving DecidableEq

structure Returned (F : Type) where
  op : Op F
  now : Nat
  result : Result

inductive Phase (F : Type) where
  | idle
  | fetching (op : Op F) (dataJson : Option (List Char)) (now attempts : Nat)
  | inserting (op : Op F) (dataJson : Option (List Char)) (now attempts seq : Nat)
  | replaying (received : List (ReplayedOp F))

structure Shared (F : Type) where
  rows : List OpRow
  calls : List (Returned F)

def Shared.answer (s : Shared F) (op : Op F) (now : Nat) (result : Result) : Shared F :=
  { s with calls := s.calls ++ [⟨op, now, result⟩] }

/-- Why an INSERT fails: for a reason that is tried again, or another one. -/
inductive InsertError where
  | retried
  | other

inductive Action (F : Type) where
  | append (op : Op F) (found : Bool) (now : Nat)
  | fetch
  | fetchFails
  | insert (error : Option InsertError)
  /-- A late joiner, and a page of its replay: of the rows, or of the first ones, which the
  query cache of its process has kept. -/
  | join
  | page (limit : Int) (known : Nat)

def lastSeq (received : List (ReplayedOp F)) : Int :=
  match received.getLast? with
  | none => 0
  | some op => op.seq

def next (depth : Nat) (s : Shared F) (p : Phase F) (a : Action F) :
    Option (Shared F × Phase F) :=
  match p, a with
  | .idle, .append op found now =>
    match check depth op found with
    | .refused => some (s.answer op now .none, .idle)
    | .raised => some (s.answer op now .raised, .idle)
    | .accepted dataJson => some (s, .fetching op dataJson now 32)
  | .fetching op dataJson now attempts, .fetch =>
    match attempts with
    | 0 => some (s.answer op now .none, .idle)
    | attempts + 1 => some (s, .inserting op dataJson now attempts (nextSeq s.rows))
  | .fetching op _ now _, .fetchFails => some (s.answer op now .raised, .idle)
  | .inserting op dataJson now attempts seq, .insert error =>
    match error, dataJson with
    | some .retried, _ => some (s, .fetching op dataJson now attempts)
    | some .other, _ => some (s.answer op now .none, .idle)
    | none, none => some (s.answer op now .none, .idle)
    | none, some data =>
      if (s.rows.map OpRow.seq).contains seq then some (s, .fetching op dataJson now attempts)
      else some ({ s.answer op now (.seq seq) with
        rows := s.rows ++ [⟨seq, op.opType, op.actorId, data, now⟩] }, .idle)
  | .idle, .join => some (s, .replaying [])
  | .replaying received, .page limit known => some (s, .replaying (received ++
      listArtifactOps depth (s.rows.take known) (lastSeq received) limit))
  | _, _ => none

abbrev World (ι F : Type) := Interleaving.State ι (Shared F) (Phase F)

variable {ι : Type}

def init (s : World ι F) : Prop :=
  s.shared.rows = [] ∧ s.shared.calls = [] ∧ ∀ i, s.pc i = .idle

/-- A string is appended only if json.loads refuses it with a ValueError. -/
def Faithful (depth : Nat) (_ : World ι F) (a : ι × Action F) : Prop :=
  match a.2 with
  | .append op _ _ => ∀ s, op.data.value = .str s →
    (loads depth (characters s) : Except Error (Value F Str)) = .error .value
  | _ => True

end Plexichat.Artifacts.OpLog
