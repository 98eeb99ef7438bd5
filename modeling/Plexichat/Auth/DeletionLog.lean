import Mathlib.Data.Fintype.Fin
import Mathlib.Data.List.Sort
import Mathlib.Tactic.FinCases
import Plexichat.Library.HashChain
import Plexichat.Library.Interleaving
import Plexichat.Library.JsonRoundTrip

/-! core/auth/deletion_log.py: the chained log of account deletions. -/
namespace Plexichat.Auth.DeletionLog
open Transition Interleaving Json

variable {F : Type}

inductive Key (F : Type) where
  | str (s : Str)
  | int (n : Int)
  | bool (b : Bool)
  | float (x : F)
  | none

/-- What is outside of the code: `sha256(t.encode()).hexdigest()`, `<` on numbers, and how deep
json goes. -/
structure Host (F : Type) where
  sha256 : List Char → List Char
  less : Int ⊕ F → Int ⊕ F → Bool
  depth : Nat

def name (s : String) : Str := s.toList.map .char

def ofText (t : List Char) : Str := t.map .char

def Str.less (s t : Str) : Bool := decide (s.map Point.code < t.map Point.code)

section Dumps

variable [Floats F]

def Key.text : Key F → Str
  | .str s => s
  | .int n => ofText ((if n < 0 then ['-'] else []) ++ Text.decimal n.natAbs)
  | .bool true => name "true"
  | .bool false => name "false"
  | .float x => ofText (Floats.repr x)
  | .none => name "null"

def Key.fits : Key F → Bool
  | .int n => decide ((Text.decimal n.natAbs).length ≤ maxStrDigits)
  | _ => true

omit [Floats F] in
def Key.number : Key F → Option (Int ⊕ F)
  | .int n => some (.inl n)
  | .bool b => some (.inl (if b then 1 else 0))
  | .float x => some (.inr x)
  | _ => Option.none

/-- A TypeError between keys of two kinds, and with None. -/
def comparable (keys : List (Key F)) : Bool :=
  decide (keys.length ≤ 1) || keys.all (fun k => k.number.isSome) ||
    keys.all fun | .str _ => true | _ => false

def keyLess (host : Host F) : Key F → Key F → Bool
  | .str s, .str t => Str.less s t
  | k, l =>
    match k.number, l.number with
    | some x, some y => host.less x y
    | _, _ => false

abbrev Data (F : Type) := Value F (Key F)

def sorted (host : Host F) : Data F → Data F :=
  Value.rebuild id fun l => l.insertionSort fun x y => keyLess host y.1 x.1 = false

def withTexts : Data F → Value F Str :=
  Value.rebuild id fun l => l.map fun x => (x.1.text, x.2)

/-- `json.dumps(d, sort_keys=…)`; every error is caught alike. -/
def dumpsData (host : Host F) (sortKeys : Bool) (d : Data F) : Except Error (List Char) :=
  if !d.all (fun _ => true) (fun keys => (!sortKeys || comparable keys) && keys.all Key.fits) then
    .error .value
  else dumps host.depth (withTexts (if sortKeys then sorted host d else d))

end Dumps

def ofValue : Value F Str → Data F := Value.rebuild id fun l => l.map fun x => (.str x.1, x.2)

structure Event (F : Type) where
  timestamp : Int
  userId : Int
  identifier : Str
  action : Str
  metadata : List (Key F × Data F)

def zeros : List Char := List.replicate 64 '0'

def lastLine : List Char → List Char → List Char
  | [], buffer => buffer
  | c :: before, buffer => if c = '\n' ∧ buffer ≠ [] then buffer else lastLine before (c :: buffer)

variable [Floats F]

def get (l : List (Str × Value F Str)) (k : Str) : Option (Value F Str) :=
  (l.find? fun x => x.1 = k).map Prod.snd

def readLastHash (host : Host F) (file : List Char) : Value F Str :=
  match loads host.depth (lastLine file.reverse []) with
  | .ok (.dict l) => (get l (name "checksum")).getD (.str (ofText zeros))
  | _ => .str (ofText zeros)

def entry (host : Host F) (e : Event F) (prev : Data F) : List (Key F × Data F) :=
  [(.str (name "timestamp"), .int e.timestamp), (.str (name "user_id"), .int e.userId),
    (.str (name "identifier_hash"), .str (ofText (host.sha256 (characters e.identifier)))),
    (.str (name "action"), .str e.action), (.str (name "metadata"), .dict e.metadata),
    (.str (name "prev_hash"), prev)]

def record (host : Host F) (e : Event F) (prev : Value F Str) :
    Except Error (List Char × List Char) :=
  match prev with
  | .str prev => do
    let content ← dumpsData host true (.dict (entry host e (.str prev)))
    if !prev.all isCharacter then .error .value
    else
      let checksum := host.sha256 (characters prev ++ content)
      let line ← dumpsData host false
        (.dict (entry host e (.str prev) ++ [(.str (name "checksum"), .str (ofText checksum))]))
      return (checksum, line)
  -- no string to put the content after
  | _ => .error .value

def newlines : List Char → List Char
  | '\r' :: '\n' :: t => '\n' :: newlines t
  | '\r' :: t => '\n' :: newlines t
  | c :: t => c :: newlines t
  | [] => []

def isSpace (c : Char) : Bool :=
  Text.isSpace c || c.toNat == 0x85 || c.toNat == 0xa0 || c.toNat == 0x1680 ||
    (0x2000 ≤ c.toNat && c.toNat ≤ 0x200a) || c.toNat == 0x2028 || c.toNat == 0x2029 ||
    c.toNat == 0x202f || c.toNat == 0x205f || c.toNat == 0x3000

def lines (file : List Char) : List (List Char) :=
  ((newlines file).splitOn '\n').filter fun line => !line.all isSpace

/-- The hashes of a line and the content that is hashed; an error, or hashes that are no
strings, break the chain. -/
def readLine (host : Host F) (line : List Char) : Option (HashChain.Record Str (List Char)) :=
  match (loads host.depth line : Except Error (Value F Str)) with
  | .ok (.dict l) =>
    let rest := l.filter fun x => x.1 ≠ name "checksum"
    match get rest (name "prev_hash"), dumpsData host true (ofValue (.dict rest)),
        get l (name "checksum") with
    | some (.str prev), .ok content, some (.str stored) => some ⟨prev, content, stored⟩
    | _, _, _ => none
  | _ => none

def verifyLine (host : Host F) (expected line : List Char) : Option (List Char) :=
  match readLine host line with
  | none => none
  | some r =>
    let checksum := host.sha256 (expected ++ r.body)
    if r.prev = ofText expected ∧ r.hash = ofText checksum then some checksum else none

def verifyLines (host : Host F) : List Char → List (List Char) → Bool × Nat
  | _, [] => (true, 0)
  | expected, line :: rest =>
    match verifyLine host expected line with
    | none => (false, 0)
    | some checksum =>
      let (valid, count) := verifyLines host checksum rest
      (valid, count + 1)

inductive Verdict where
  | valid (count : Nat)
  | broken (count : Nat)
  | rotated
  deriving DecidableEq

/-- `rotate_on_broken_chain` puts a broken file aside. -/
def verifyChain (host : Host F) (rotate : Bool) (file : List Char) : Verdict :=
  match verifyLines host zeros (lines file) with
  | (true, count) => .valid count
  | (false, count) => if rotate then .rotated else .broken count

inductive Phase (F : Type) where
  | idle
  | opened (e : Event F)
  | locked (e : Event F) (prev : Value F Str)

/-- The file, its lock, and the events that were reported as written, with their checksums. -/
structure Shared (F : Type) where
  file : List Char
  locked : Bool
  reported : List (Event F × List Char)

inductive Action (F : Type) where
  | logEvent (e : Event F)
  | acquire
  | append
  /-- An error of the file or of its lock, before anything is written. -/
  | fail

def next (host : Host F) (s : Shared F) (p : Phase F) (a : Action F) :
    Option (Shared F × Phase F) :=
  match p, a with
  | .idle, .logEvent e =>
    -- the identifier is encoded outside of the try
    some (s, if e.identifier.all isCharacter then .opened e else .idle)
  | .opened e, .acquire =>
    if s.locked then none else some ({ s with locked := true }, .locked e (readLastHash host s.file))
  | .locked e prev, .append =>
    match record host e prev with
    | .error _ => some ({ s with locked := false }, .idle)
    | .ok (checksum, line) => some (⟨s.file ++ line ++ ['\n'], false,
        s.reported ++ [(e, checksum)]⟩, .idle)
  | .opened _, .fail => some (s, .idle)
  | .locked _ _, .fail => some ({ s with locked := false }, .idle)
  | _, _ => none

abbrev World (ι F : Type) := Interleaving.State ι (Shared F) (Phase F)

variable {ι : Type}

def init (s : World ι F) : Prop :=
  s.shared = ⟨[], false, []⟩ ∧ ∀ i, s.pc i = .idle

/-- In every dict, the order of the keys is that of their texts, and no two texts are equal. -/
def Ordered (host : Host F) (d : Data F) : Bool :=
  d.all (fun _ => true) fun keys => decide <|
    ((keys.insertionSort fun k l => keyLess host l k = false).map fun k => join k.text).Pairwise
      fun s t => Str.less s t = true

end Plexichat.Auth.DeletionLog
