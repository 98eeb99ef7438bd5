import Mathlib.Data.List.Lex
import Plexichat.Library.Text

/-! json.dumps and json.loads of Python. A str is a list of code points, among which halves of
surrogate pairs may stand alone; floats are known by their texts. -/
namespace Json

inductive Point where
  | char (c : Char)
  | high (n : Fin 1024)
  | low (n : Fin 1024)
  deriving DecidableEq

abbrev Str := List Point

def Point.code : Point → Nat
  | .char c => c.toNat
  | .high n => 0xd800 + n
  | .low n => 0xdc00 + n

/-- The floats, and what `float.__repr__` and `float` do with them. -/
class Floats (F : Type) where
  repr : F → List Char
  ofText : List Char → F
  nan : F
  infinity : F
  minusInfinity : F

inductive Value (F K : Type) where
  | null
  | bool (b : Bool)
  | int (n : Int)
  | float (x : F)
  | str (s : Str)
  | list (l : List (Value F K))
  | dict (l : List (K × Value F K))

namespace Value

variable {F K K' : Type}

theorem induct {P : Value F K → Prop} (null : P .null) (bool : ∀ b, P (.bool b))
    (int : ∀ n, P (.int n)) (float : ∀ x, P (.float x)) (str : ∀ s, P (.str s))
    (list : ∀ l, (∀ v ∈ l, P v) → P (.list l)) (dict : ∀ l, (∀ x ∈ l, P x.2) → P (.dict l))
    (v : Value F K) : P v := by
  refine @Value.rec F K P (fun l => ∀ v ∈ l, P v) (fun l => ∀ x ∈ l, P x.2) (fun x => P x.2)
    null bool int float str list dict ?_ ?_ ?_ ?_ ?_ v
  · exact fun v member => absurd member List.not_mem_nil
  · exact fun v l first rest => List.forall_mem_cons.mpr ⟨first, rest⟩
  · exact fun x member => absurd member List.not_mem_nil
  · exact fun x l first rest => List.forall_mem_cons.mpr ⟨first, rest⟩
  · exact fun k v holds => holds

mutual

def rebuild (str : Str → Str) (dict : List (K × Value F K') → List (K' × Value F K')) :
    Value F K → Value F K'
  | .null => .null
  | .bool b => .bool b
  | .int n => .int n
  | .float x => .float x
  | .str s => .str (str s)
  | .list l => .list (rebuildItems str dict l)
  | .dict l => .dict (dict (rebuildMembers str dict l))

def rebuildItems (str : Str → Str) (dict : List (K × Value F K') → List (K' × Value F K')) :
    List (Value F K) → List (Value F K')
  | [] => []
  | v :: l => rebuild str dict v :: rebuildItems str dict l

def rebuildMembers (str : Str → Str) (dict : List (K × Value F K') → List (K' × Value F K')) :
    List (K × Value F K) → List (K × Value F K')
  | [] => []
  | (k, v) :: l => (k, rebuild str dict v) :: rebuildMembers str dict l

end

mutual

def all (str : Str → Bool) (dict : List K → Bool) : Value F K → Bool
  | .null => true
  | .bool _ => true
  | .int _ => true
  | .float _ => true
  | .str s => str s
  | .list l => allItems str dict l
  | .dict l => dict (l.map Prod.fst) && allMembers str dict l

def allItems (str : Str → Bool) (dict : List K → Bool) : List (Value F K) → Bool
  | [] => true
  | v :: l => all str dict v && allItems str dict l

def allMembers (str : Str → Bool) (dict : List K → Bool) : List (K × Value F K) → Bool
  | [] => true
  | (_, v) :: l => all str dict v && allMembers str dict l

end

@[simp] theorem all_list (str : Str → Bool) (dict : List K → Bool) (l : List (Value F K)) :
    all str dict (.list l) = l.all (all str dict) := by
  rw [all]
  induction l with
  | nil => rfl
  | cons v l ih => rw [allItems, ih, List.all_cons]

@[simp] theorem all_dict (str : Str → Bool) (dict : List K → Bool) (l : List (K × Value F K)) :
    all str dict (.dict l) = (dict (l.map Prod.fst) && l.all fun x => all str dict x.2) := by
  rw [all]
  congr 1
  induction l with
  | nil => rfl
  | cons x l ih => rw [allMembers, ih, List.all_cons]

variable (str : Str → Str) (dict : List (K × Value F K') → List (K' × Value F K'))

@[simp] theorem rebuild_list (l : List (Value F K)) :
    rebuild str dict (.list l) = .list (l.map (rebuild str dict)) := by
  rw [rebuild]
  congr 1
  induction l with
  | nil => rfl
  | cons v l ih => rw [rebuildItems, ih, List.map_cons]

@[simp] theorem rebuild_dict (l : List (K × Value F K)) :
    rebuild str dict (.dict l) = .dict (dict (l.map fun x => (x.1, rebuild str dict x.2))) := by
  rw [rebuild]
  congr 2
  induction l with
  | nil => rfl
  | cons x l ih => rw [rebuildMembers, ih, List.map_cons]

end Value

inductive Error where
  | value
  | recursion
  deriving DecidableEq

def maxStrDigits : Nat := 4300

def isCharacter : Point → Bool
  | .char _ => true
  | _ => false

/-- str.encode refuses a surrogate. -/
def encodable {F : Type} (v : Value F Str) : Bool :=
  v.all (fun s => s.all isCharacter) fun keys => keys.all fun k => k.all isCharacter

def characters (s : Str) : List Char := s.filterMap fun
  | .char c => some c
  | _ => none

section Dumps

variable {F : Type} [Floats F]

/-- Four hexadecimal digits, after `\u`. -/
def escapeUnit (n : Nat) : List Char :=
  ['\\', 'u', Nat.digitChar (n / 4096 % 16), Nat.digitChar (n / 256 % 16),
    Nat.digitChar (n / 16 % 16), Nat.digitChar (n % 16)]

def escapeChar (c : Char) : List Char :=
  if c = '"' then ['\\', '"']
  else if c = '\\' then ['\\', '\\']
  else if c = '\n' then ['\\', 'n']
  else if c = '\r' then ['\\', 'r']
  else if c = '\t' then ['\\', 't']
  else if c.toNat = 12 then ['\\', 'f']
  else if c.toNat = 8 then ['\\', 'b']
  else if 32 ≤ c.toNat ∧ c.toNat < 127 then [c]
  else if c.toNat < 0x10000 then escapeUnit c.toNat
  else escapeUnit (0xd800 + (c.toNat - 0x10000) / 1024) ++
    escapeUnit (0xdc00 + (c.toNat - 0x10000) % 1024)

def escapePoint : Point → List Char
  | .char c => escapeChar c
  | p => escapeUnit p.code

/-- With ensure_ascii=False: only what a string cannot hold is escaped. -/
def escapeRaw : Point → List Char
  | .char c =>
    if 127 ≤ c.toNat then [c] else escapeChar c
  | p => escapeUnit p.code

def quotedBy (escape : Point → List Char) (s : Str) : List Char :=
  '"' :: s.flatMap escape ++ ['"']

def dumpsInt (n : Int) : Except Error (List Char) :=
  let ds := Text.decimal n.natAbs
  if maxStrDigits < ds.length then .error .value
  else .ok (if n < 0 then '-' :: ds else ds)

mutual

/-- `json.dumps(v)`, with at most `limit` lists and dicts inside each other. -/
def dumpsBy (escape : Point → List Char) : Nat → Value F Str → Except Error (List Char)
  | _, .null => .ok ['n', 'u', 'l', 'l']
  | _, .bool true => .ok ['t', 'r', 'u', 'e']
  | _, .bool false => .ok ['f', 'a', 'l', 's', 'e']
  | _, .int n => dumpsInt n
  | _, .float x => .ok (Floats.repr x)
  | _, .str s => .ok (quotedBy escape s)
  | 0, .list _ => .error .recursion
  | _ + 1, .list [] => .ok ['[', ']']
  | n + 1, .list (v :: l) => do
    let first ← dumpsBy escape n v
    let rest ← dumpsItemsBy escape n l
    return '[' :: first ++ rest
  | 0, .dict _ => .error .recursion
  | _ + 1, .dict [] => .ok ['{', '}']
  | n + 1, .dict ((k, v) :: l) => do
    let first ← dumpsBy escape n v
    let rest ← dumpsMembersBy escape n l
    return '{' :: quotedBy escape k ++ [':', ' '] ++ first ++ rest

def dumpsItemsBy (escape : Point → List Char) :
    Nat → List (Value F Str) → Except Error (List Char)
  | _, [] => .ok [']']
  | n, v :: l => do
    let first ← dumpsBy escape n v
    let rest ← dumpsItemsBy escape n l
    return [',', ' '] ++ first ++ rest

def dumpsMembersBy (escape : Point → List Char) :
    Nat → List (Str × Value F Str) → Except Error (List Char)
  | _, [] => .ok ['}']
  | n, (k, v) :: l => do
    let first ← dumpsBy escape n v
    let rest ← dumpsMembersBy escape n l
    return [',', ' '] ++ quotedBy escape k ++ [':', ' '] ++ first ++ rest

end

abbrev quoted (s : Str) : List Char := quotedBy escapePoint s

abbrev dumps (limit : Nat) (v : Value F Str) : Except Error (List Char) :=
  dumpsBy escapePoint limit v

abbrev dumpsItems (limit : Nat) (l : List (Value F Str)) : Except Error (List Char) :=
  dumpsItemsBy escapePoint limit l

abbrev dumpsMembers (limit : Nat) (l : List (Str × Value F Str)) : Except Error (List Char) :=
  dumpsMembersBy escapePoint limit l

end Dumps

section Loads

variable {F : Type} [Floats F] {α : Type}

def isWhite (c : Char) : Bool := c == ' ' || c == '\t' || c == '\n' || c == '\r'

def skip (t : List Char) : List Char := t.dropWhile isWhite

def hexValue (c : Char) : Option Nat :=
  if c.isDigit then some (c.toNat - 48)
  else if 97 ≤ c.toNat ∧ c.toNat ≤ 102 then some (c.toNat - 87)
  else if 65 ≤ c.toNat ∧ c.toNat ≤ 70 then some (c.toNat - 55)
  else none

def hexUnit (a b c d : Char) : Option Nat := do
  let a ← hexValue a
  let b ← hexValue b
  let c ← hexValue c
  let d ← hexValue d
  return a * 4096 + b * 256 + c * 16 + d

def unit (n : Nat) : Point :=
  if high : 0xd800 ≤ n ∧ n < 0xdc00 then .high ⟨n - 0xd800, by omega⟩
  else if low : 0xdc00 ≤ n ∧ n < 0xe000 then .low ⟨n - 0xdc00, by omega⟩
  else .char (Char.ofNat n)

def unescape : Char → Option Char
  | '"' => some '"'
  | '\\' => some '\\'
  | '/' => some '/'
  | 'b' => some (Char.ofNat 8)
  | 'f' => some (Char.ofNat 12)
  | 'n' => some '\n'
  | 'r' => some '\r'
  | 't' => some '\t'
  | _ => none

def points : List Char → Option (Str × List Char)
  | [] => none
  | '"' :: rest => some ([], rest)
  | '\\' :: 'u' :: a :: b :: c :: d :: rest => do
    let n ← hexUnit a b c d
    let (s, rest) ← points rest
    return (unit n :: s, rest)
  | '\\' :: c :: rest => do
    let c ← unescape c
    let (s, rest) ← points rest
    return (.char c :: s, rest)
  | c :: rest => do
    if c.toNat < 32 then none
    let (s, rest) ← points rest
    return (.char c :: s, rest)

def join : Str → Str
  | .high h :: .low l :: s => .char (Char.ofNat (0x10000 + h * 1024 + l)) :: join s
  | p :: s => p :: join s
  | [] => []

def string (t : List Char) : Except Error (Str × List Char) :=
  match points t with
  | none => .error .value
  | some (s, rest) => .ok (join s, rest)

def whole : List Char → Option (List Char × List Char)
  | '0' :: rest => some (['0'], rest)
  | c :: rest =>
    if c.isDigit then some (c :: rest.takeWhile Char.isDigit, rest.dropWhile Char.isDigit) else none
  | [] => none

def fraction : List Char → List Char × List Char
  | '.' :: c :: rest =>
    if c.isDigit then
      ('.' :: c :: rest.takeWhile Char.isDigit, rest.dropWhile Char.isDigit)
    else ([], '.' :: c :: rest)
  | t => ([], t)

def exponentDigits (lead t : List Char) : List Char → List Char × List Char
  | c :: rest =>
    if c.isDigit then (lead ++ c :: rest.takeWhile Char.isDigit, rest.dropWhile Char.isDigit)
    else ([], t)
  | [] => ([], t)

def exponent : List Char → List Char × List Char
  | e :: rest =>
    if e = 'e' ∨ e = 'E' then
      match rest with
      | '+' :: digits => exponentDigits [e, '+'] (e :: rest) digits
      | '-' :: digits => exponentDigits [e, '-'] (e :: rest) digits
      | digits => exponentDigits [e] (e :: rest) digits
    else ([], e :: rest)
  | [] => ([], [])

def unsigned (minus : Bool) (t : List Char) : Except Error (Value F Str × List Char) :=
  match whole t with
  | none => .error .value
  | some (ds, rest) =>
    let (frac, rest) := fraction rest
    let (exp, rest) := exponent rest
    if frac = [] ∧ exp = [] then
      if maxStrDigits < ds.length then .error .value
      else
        let n : Int := Nat.ofDigitChars 10 ds 0
        .ok (.int (if minus then -n else n), rest)
    else .ok (.float (Floats.ofText ((if minus then ['-'] else []) ++ ds ++ frac ++ exp)), rest)

def scalar : List Char → Except Error (Value F Str × List Char)
  | 'n' :: 'u' :: 'l' :: 'l' :: rest => .ok (.null, rest)
  | 't' :: 'r' :: 'u' :: 'e' :: rest => .ok (.bool true, rest)
  | 'f' :: 'a' :: 'l' :: 's' :: 'e' :: rest => .ok (.bool false, rest)
  | 'N' :: 'a' :: 'N' :: rest => .ok (.float Floats.nan, rest)
  | 'I' :: 'n' :: 'f' :: 'i' :: 'n' :: 'i' :: 't' :: 'y' :: rest =>
    .ok (.float Floats.infinity, rest)
  | '-' :: 'I' :: 'n' :: 'f' :: 'i' :: 'n' :: 'i' :: 't' :: 'y' :: rest =>
    .ok (.float Floats.minusInfinity, rest)
  | '-' :: rest => unsigned true rest
  | t => unsigned false t

/-- The items of a list after `[` and any white space. Each takes a character at least. -/
def items (scan : List Char → Except Error (α × List Char)) : Nat → List Char → Except Error (List α × List Char)
  | 0, _ => .error .value
  | n + 1, t => do
    let (x, rest) ← scan t
    match skip rest with
    | ']' :: rest => return ([x], rest)
    | ',' :: rest =>
      let (xs, rest) ← items scan n (skip rest)
      return (x :: xs, rest)
    | _ => .error .value

def array (scan : List Char → Except Error (α × List Char)) (t : List Char) : Except Error (List α × List Char) :=
  match skip t with
  | ']' :: rest => .ok ([], rest)
  | t => items scan t.length t

def member (scan : List Char → Except Error (α × List Char)) : List Char → Except Error ((Str × α) × List Char)
  | '"' :: t => do
    let (k, rest) ← string t
    match skip rest with
    | ':' :: rest =>
      let (x, rest) ← scan (skip rest)
      return ((k, x), rest)
    | _ => .error .value
  | _ => .error .value

def members (scan : List Char → Except Error (α × List Char)) : Nat → List Char → Except Error (List (Str × α) × List Char)
  | 0, _ => .error .value
  | n + 1, t => do
    let (x, rest) ← member scan t
    match skip rest with
    | '}' :: rest => return ([x], rest)
    | ',' :: rest =>
      let (xs, rest) ← members scan n (skip rest)
      return (x :: xs, rest)
    | _ => .error .value

def object (scan : List Char → Except Error (α × List Char)) (t : List Char) : Except Error (List (Str × α) × List Char) :=
  match skip t with
  | '}' :: rest => .ok ([], rest)
  | t => members scan t.length t

inductive Opening where
  | string (rest : List Char)
  | array (rest : List Char)
  | object (rest : List Char)
  | scalar

def opening : List Char → Opening
  | '"' :: rest => .string rest
  | '[' :: rest => .array rest
  | '{' :: rest => .object rest
  | _ => .scalar

/-- One value at the front of a text, with `hook` for object_pairs_hook. -/
def scan (hook : List (Str × Value F Str) → List (Str × Value F Str)) :
    Nat → List Char → Except Error (Value F Str × List Char)
  | limit, t =>
    match limit, opening t with
    | _, .string rest => do
      let (s, rest) ← string rest
      return (.str s, rest)
    | 0, .array _ => .error .recursion
    | n + 1, .array rest => do
      let (l, rest) ← array (scan hook n) rest
      return (.list l, rest)
    | 0, .object _ => .error .recursion
    | n + 1, .object rest => do
      let (l, rest) ← object (scan hook n) rest
      return (.dict (hook l), rest)
    | _, .scalar => scalar t

/-- `d[k] = v`. -/
def setItem (l : List (Str × α)) (x : Str × α) : List (Str × α) :=
  if x.1 ∈ l.map Prod.fst then l.map fun y => if y.1 = x.1 then (y.1, x.2) else y else l ++ [x]

/-- `dict(pairs)`. -/
def dictOf (l : List (Str × α)) : List (Str × α) := l.foldl setItem []

/-- `json.loads(t)`; a text that begins with a byte order mark is refused. -/
def loads (limit : Nat) (t : List Char) : Except Error (Value F Str) :=
  if t.head? = some (Char.ofNat 0xfeff) then .error .value
  else do
    let (v, rest) ← scan dictOf limit (skip t)
    if skip rest = [] then return v else .error .value

end Loads

end Json
