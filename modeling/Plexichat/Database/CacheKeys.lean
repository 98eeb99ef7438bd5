import Plexichat.Library.Checks
import Plexichat.Library.Fields
import Plexichat.Library.JsonShape

/-! core/database/cache: the keys under which the results of calls are kept. -/
namespace Plexichat.Database.CacheKeys

open Checks Fields Json

inductive Key (F : Type) where
  | none
  | bool (b : Bool)
  | int (n : Int)
  | float (x : F)
  | str (s : Str)

abbrev Arg (F : Type) := Json.Value F (Key F)

/-- What Python knows beyond the texts of floats: `<` of numbers, a bool being an int. -/
class Python (F : Type) extends Floats F where
  less : Int ⊕ F → Int ⊕ F → Bool
  isPrintable : Char → Bool
  isIdentifier : Str → Bool

def word (t : List Char) : Str := t.map .char

def colon : Point := .char ':'

class LawfulPython (F : Type) [Python F] : Prop extends LawfulFloats F where
  colon_free : ∀ name, Python.isIdentifier F name = true → colon ∉ name
  str_identifier : Python.isIdentifier F (word ['s', 't', 'r']) = true

def strLess (s t : Str) : Prop := s.map Point.code < t.map Point.code

instance (s t : Str) : Decidable (strLess s t) := inferInstanceAs (Decidable (_ < _))

/-- The arguments of a call, without a bound instance. The keyword arguments, a dict, stand here in
the order of their names, in which `sorted(kwargs.items())` goes through them. -/
structure Call (F : Type) [Python F] where
  args : List (Arg F)
  kwargs : List (Str × Arg F)
  ordered : kwargs.Pairwise fun x y => strLess x.1 y.1
  names : ∀ x ∈ kwargs, Python.isIdentifier F x.1 = true

section Texts

variable {F : Type}

/-- `type(val).__name__` -/
def typeName : Arg F → List Char
  | .null => ['N', 'o', 'n', 'e', 'T', 'y', 'p', 'e']
  | .bool _ => ['b', 'o', 'o', 'l']
  | .int _ => ['i', 'n', 't']
  | .float _ => ['f', 'l', 'o', 'a', 't']
  | .str _ => ['s', 't', 'r']
  | .list _ => ['l', 'i', 's', 't']
  | .dict _ => ['d', 'i', 'c', 't']

def Key.number? : Key F → Option (Int ⊕ F)
  | .bool b => some (.inl (if b then 1 else 0))
  | .int n => some (.inl n)
  | .float x => some (.inr x)
  | _ => Option.none

def Key.isStr : Key F → Bool
  | .str _ => true
  | _ => false

def Key.isShort : Key F → Bool
  | .int n => decide ((Text.decimal n.natAbs).length ≤ maxStrDigits)
  | _ => true

def sortable (keys : List (Key F)) : Bool :=
  keys.all Key.isStr || keys.all (fun k => k.number?.isSome) || decide (keys.length ≤ 1)

variable [Python F]

def Key.less : Key F → Key F → Bool
  | .str s, .str t => decide (strLess s t)
  | k, l =>
    match k.number?, l.number? with
    | some x, some y => Python.less x y
    | _, _ => false

def Key.text : Key F → Str
  | .none => word ['n', 'u', 'l', 'l']
  | .bool true => word ['t', 'r', 'u', 'e']
  | .bool false => word ['f', 'a', 'l', 's', 'e']
  | .int n => word ((if n < 0 then ['-'] else []) ++ Text.decimal n.natAbs)
  | .float x => word (Floats.repr x)
  | .str s => s

def sortedItems {α : Type} (l : List (Key F × α)) : List (Str × α) :=
  (l.mergeSort fun x y => !(y.1.less x.1)).map fun x => (x.1.text, x.2)

/-- `json.dumps(val, sort_keys=True)` -/
def dumpsSorted (limit : Nat) (val : Arg F) : Except Json.Error (List Char) :=
  if val.all (fun _ => true) fun keys => sortable keys && keys.all Key.isShort then
    dumps limit (val.rebuild id sortedItems)
  else .error .value

/-- `str` of a float, where json.dumps has names of its own. -/
def floatText (x : F) : List Char :=
  if Floats.repr x = ['N', 'a', 'N'] then ['n', 'a', 'n']
  else if Floats.repr x = ['I', 'n', 'f', 'i', 'n', 'i', 't', 'y'] then ['i', 'n', 'f']
  else if Floats.repr x = ['-', 'I', 'n', 'f', 'i', 'n', 'i', 't', 'y'] then ['-', 'i', 'n', 'f']
  else Floats.repr x

def hex (width n : Nat) : List Char :=
  (List.range width).reverse.map fun i => Nat.digitChar (n / 16 ^ i % 16)

variable (F) in
def reprPoint (quote : Char) : Point → List Char
  | .char c =>
    if c = quote ∨ c = '\\' then ['\\', c]
    else if c = '\t' then ['\\', 't']
    else if c = '\n' then ['\\', 'n']
    else if c = '\r' then ['\\', 'r']
    else if c.toNat < 32 ∨ c.toNat = 127 then '\\' :: 'x' :: hex 2 c.toNat
    else if c.toNat < 127 ∨ Python.isPrintable F c then [c]
    else if c.toNat < 256 then '\\' :: 'x' :: hex 2 c.toNat
    else if c.toNat < 0x10000 then '\\' :: 'u' :: hex 4 c.toNat
    else '\\' :: 'U' :: hex 8 c.toNat
  | p => '\\' :: 'u' :: hex 4 p.code

variable (F) in
def reprStr (s : Str) : List Char :=
  let quote := if .char '\'' ∈ s ∧ .char '"' ∉ s then '"' else '\''
  quote :: s.flatMap (reprPoint F quote) ++ [quote]

def Key.repr : Key F → Except Json.Error (List Char)
  | .none => .ok ['N', 'o', 'n', 'e']
  | .bool true => .ok ['T', 'r', 'u', 'e']
  | .bool false => .ok ['F', 'a', 'l', 's', 'e']
  | .int n => dumpsInt n
  | .float x => .ok (floatText x)
  | .str s => .ok (reprStr F s)

mutual

/-- `repr(val)`, with at most `limit` lists and dicts inside each other. -/
def repr : Nat → Arg F → Except Json.Error (List Char)
  | _, .null => .ok ['N', 'o', 'n', 'e']
  | _, .bool true => .ok ['T', 'r', 'u', 'e']
  | _, .bool false => .ok ['F', 'a', 'l', 's', 'e']
  | _, .int n => dumpsInt n
  | _, .float x => .ok (floatText x)
  | _, .str s => .ok (reprStr F s)
  | 0, .list _ => .error .recursion
  | _ + 1, .list [] => .ok ['[', ']']
  | n + 1, .list (v :: l) => do
    let first ← repr n v
    let rest ← reprItems n l
    return '[' :: first ++ rest
  | 0, .dict _ => .error .recursion
  | _ + 1, .dict [] => .ok ['{', '}']
  | n + 1, .dict ((k, v) :: l) => do
    let key ← k.repr
    let first ← repr n v
    let rest ← reprMembers n l
    return '{' :: key ++ [':', ' '] ++ first ++ rest

def reprItems : Nat → List (Arg F) → Except Json.Error (List Char)
  | _, [] => .ok [']']
  | n, v :: l => do
    let first ← repr n v
    let rest ← reprItems n l
    return [',', ' '] ++ first ++ rest

def reprMembers : Nat → List (Key F × Arg F) → Except Json.Error (List Char)
  | _, [] => .ok ['}']
  | n, (k, v) :: l => do
    let key ← k.repr
    let first ← repr n v
    let rest ← reprMembers n l
    return [',', ' '] ++ key ++ [':', ' '] ++ first ++ rest

end

def payload (limit : Nat) (val : Arg F) : Except Json.Error (List Char) :=
  match dumpsSorted limit val with
  | .ok t => .ok t
  | .error _ => repr limit val

/-- `f"{val}"`, or the digest of a list or a dict. -/
def text (limit : Nat) (digest : List Char → List Char) : Arg F → Except Json.Error Str
  | .null => .ok (word ['N', 'o', 'n', 'e'])
  | .bool true => .ok (word ['T', 'r', 'u', 'e'])
  | .bool false => .ok (word ['F', 'a', 'l', 's', 'e'])
  | .int n => do
    let t ← dumpsInt n
    return word t
  | .float x => .ok (word (floatText x))
  | .str s => .ok s
  | val => do
    let t ← payload limit val
    return word (digest t)

def processVal (limit : Nat) (digest : List Char → List Char) (val : Arg F) :
    Except Json.Error Str := do
  let t ← text limit digest val
  return word (typeName val) ++ colon :: t

def processKeyword (limit : Nat) (digest : List Char → List Char) (x : Str × Arg F) :
    Except Json.Error Str := do
  let t ← processVal limit digest x.2
  return x.1 ++ colon :: t

def keyParts (limit : Nat) (digest : List Char → List Char) (call : Call F) :
    Except Json.Error (List Str) := do
  let args ← call.args.mapM (processVal limit digest)
  let kwargs ← call.kwargs.mapM (processKeyword limit digest)
  return args ++ kwargs

/-- The prefix names the function; the digest is the front of a hash, in hexadecimal digits. -/
def generateCacheKey (limit : Nat) (digest : List Char → List Char) (prefixed : Str)
    (call : Call F) : Except Json.Error Str := do
  let parts ← keyParts limit digest call
  return List.intercalate [colon] (prefixed :: parts)

end Texts

section Equality

variable {F : Type}

/-- Data of the same types that Python takes for equal: the order of a dict does not matter. -/
inductive Same : Arg F → Arg F → Prop where
  | refl (v : Arg F) : Same v v
  | list {l m : List (Arg F)} : List.Forall₂ Same l m → Same (.list l) (.list m)
  | dict {l m n : List (Key F × Arg F)} : l.map Prod.fst = m.map Prod.fst →
      List.Forall₂ Same (l.map Prod.snd) (m.map Prod.snd) → m.Perm n → Same (.dict l) (.dict n)

theorem forall₂_same_refl (l : List (Arg F)) : List.Forall₂ Same l l := by
  induction l with
  | nil => exact .nil
  | cons v l ih => exact .cons (.refl v) ih

variable [Python F]

structure Alike (c d : Call F) : Prop where
  args : List.Forall₂ Same c.args d.args
  names : c.kwargs.map Prod.fst = d.kwargs.map Prod.fst
  values : List.Forall₂ Same (c.kwargs.map Prod.snd) (d.kwargs.map Prod.snd)

end Equality

section Tails

variable {F : Type} [Python F] {limit : Nat} {digest : List Char → List Char}

variable (limit digest) in
inductive Tail : List (Arg F) → List (Str × Arg F) → Str → Prop where
  | nil : Tail [] [] []
  | keyword {k : Str} {v : Arg F} {ks : List (Str × Arg F)} {p t : Str} :
      processVal limit digest v = .ok p → Tail [] ks t →
      Tail [] ((k, v) :: ks) (colon :: (k ++ colon :: (p ++ t)))
  | positional {v : Arg F} {as : List (Arg F)} {ks : List (Str × Arg F)} {p t : Str} :
      processVal limit digest v = .ok p → Tail as ks t → Tail (v :: as) ks (colon :: (p ++ t))

theorem processKeyword_eq_ok {x : Str × Arg F} {p : Str}
    (written : processKeyword limit digest x = .ok p) :
    ∃ q, processVal limit digest x.2 = .ok q ∧ p = x.1 ++ colon :: q := by
  obtain ⟨q, value, h⟩ := returned_bind written
  cases h
  exact ⟨q, value, rfl⟩

theorem tail_keywords {ks : List (Str × Arg F)} {t : Str} : Tail limit digest [] ks t ↔
    ∃ parts, ks.mapM (processKeyword limit digest) = .ok parts ∧ t = fields colon parts := by
  induction ks generalizing t with
  | nil =>
    constructor
    · intro tail
      cases tail
      exact ⟨[], rfl, rfl⟩
    · rintro ⟨parts, none, rfl⟩
      cases none
      exact .nil
  | cons x ks ih =>
    rw [List.mapM_cons]
    constructor
    · intro tail
      cases tail with
      | @keyword k v _ p t first rest =>
        obtain ⟨parts, more, rfl⟩ := ih.mp rest
        refine ⟨(k ++ colon :: p) :: parts, ?_, by simp⟩
        rw [processKeyword, first, more]
        rfl
    · rintro ⟨parts, all, rfl⟩
      obtain ⟨p, first, all⟩ := returned_bind all
      obtain ⟨ps, rest, all⟩ := returned_bind all
      cases all
      obtain ⟨q, value, rfl⟩ := processKeyword_eq_ok first
      have tail := Tail.keyword (k := x.1) value (ih.mpr ⟨ps, rest, rfl⟩)
      simpa using tail

theorem tail_iff {as : List (Arg F)} {ks : List (Str × Arg F)} {t : Str} :
    Tail limit digest as ks t ↔ ∃ ps qs, as.mapM (processVal limit digest) = .ok ps ∧
      ks.mapM (processKeyword limit digest) = .ok qs ∧ t = fields colon (ps ++ qs) := by
  induction as generalizing t with
  | nil =>
    rw [tail_keywords]
    constructor
    · rintro ⟨parts, all, rfl⟩
      exact ⟨[], parts, rfl, all, rfl⟩
    · rintro ⟨ps, qs, none, all, rfl⟩
      cases none
      exact ⟨qs, all, rfl⟩
  | cons v as ih =>
    rw [List.mapM_cons]
    constructor
    · intro tail
      cases tail with
      | @positional _ _ _ p t first rest =>
        obtain ⟨ps, qs, more, all, rfl⟩ := ih.mp rest
        refine ⟨p :: ps, qs, ?_, all, rfl⟩
        rw [first, more]
        rfl
    · rintro ⟨ps, qs, some, all, rfl⟩
      obtain ⟨p, first, some⟩ := returned_bind some
      obtain ⟨ps', rest, some⟩ := returned_bind some
      cases some
      exact .positional first (ih.mpr ⟨ps', qs, rest, all, rfl⟩)

theorem generateCacheKey_eq_ok {prefixed k : Str} {c : Call F} :
    generateCacheKey limit digest prefixed c = .ok k ↔
      ∃ t, Tail limit digest c.args c.kwargs t ∧ k = prefixed ++ t := by
  constructor
  · intro written
    obtain ⟨parts, rendered, written⟩ := returned_bind written
    obtain ⟨ps, args, rendered⟩ := returned_bind rendered
    obtain ⟨qs, kwargs, rendered⟩ := returned_bind rendered
    cases rendered
    cases written
    exact ⟨_, tail_iff.mpr ⟨ps, qs, args, kwargs, rfl⟩, intercalate_cons _ _⟩
  · rintro ⟨t, tail, rfl⟩
    obtain ⟨ps, qs, args, kwargs, rfl⟩ := tail_iff.mp tail
    rw [generateCacheKey, keyParts, args, kwargs, ← intercalate_cons]
    rfl

theorem Tail.ended {as : List (Arg F)} {ks : List (Str × Arg F)} {t : Str}
    (tail : Tail limit digest as ks t) : Ended colon t := by
  cases tail with
  | nil => exact .nil
  | keyword => exact .cons _
  | positional => exact .cons _

theorem tail_args_append {l m : List (Arg F)} {ks : List (Str × Arg F)} {t : Str} :
    Tail limit digest (l ++ m) ks t ↔
      ∃ p u, Tail limit digest l [] p ∧ Tail limit digest m ks u ∧ t = p ++ u := by
  induction l generalizing t with
  | nil =>
    constructor
    · exact fun tail => ⟨[], t, .nil, tail, rfl⟩
    · rintro ⟨p, u, none, tail, rfl⟩
      cases none
      exact tail
  | cons v l ih =>
    constructor
    · intro tail
      cases tail with
      | positional first rest =>
        obtain ⟨p, u, before, behind, rfl⟩ := ih.mp rest
        exact ⟨_, u, .positional first before, behind, by simp⟩
    · rintro ⟨p, u, before, behind, rfl⟩
      cases before with
      | positional first rest =>
        have tail := Tail.positional first (ih.mpr ⟨_, u, rest, behind, rfl⟩)
        simpa using tail

theorem tail_kwargs_append {as : List (Arg F)} {ks ls : List (Str × Arg F)} {t : Str} :
    Tail limit digest as (ks ++ ls) t ↔
      ∃ p u, Tail limit digest as ks p ∧ Tail limit digest [] ls u ∧ t = p ++ u := by
  induction as generalizing t with
  | nil =>
    induction ks generalizing t with
    | nil =>
      constructor
      · exact fun tail => ⟨[], t, .nil, tail, rfl⟩
      · rintro ⟨p, u, none, tail, rfl⟩
        cases none
        exact tail
    | cons x ks ih =>
      constructor
      · intro tail
        cases tail with
        | keyword first rest =>
          obtain ⟨p, u, before, behind, rfl⟩ := ih.mp rest
          exact ⟨_, u, .keyword first before, behind, by simp⟩
      · rintro ⟨p, u, before, behind, rfl⟩
        cases before with
        | @keyword k _ _ _ _ first rest =>
          have tail := Tail.keyword (k := k) first (ih.mpr ⟨_, u, rest, behind, rfl⟩)
          simpa using tail
  | cons v as ih =>
    constructor
    · intro tail
      cases tail with
      | positional first rest =>
        obtain ⟨p, u, before, behind, rfl⟩ := ih.mp rest
        exact ⟨_, u, .positional first before, behind, by simp⟩
    · rintro ⟨p, u, before, behind, rfl⟩
      cases before with
      | positional first rest =>
        have tail := Tail.positional first (ih.mpr ⟨_, u, rest, behind, rfl⟩)
        simpa using tail

end Tails

section Values

def isHex (c : Char) : Bool := c.isDigit || ('a' ≤ c && c ≤ 'f')

structure CollisionFree (digest : List Char → List Char) : Prop where
  hexadecimal : ∀ t, ∀ c ∈ digest t, isHex c = true
  injective : Function.Injective digest

def named : List (List Char) :=
  [['N', 'o', 'n', 'e'], ['T', 'r', 'u', 'e'], ['F', 'a', 'l', 's', 'e'], ['n', 'a', 'n'],
    ['i', 'n', 'f'], ['-', 'i', 'n', 'f']]

def Plain (u : List Char) : Prop :=
  u ∈ named ∨ (∃ c ∈ u, c.isDigit = true) ∨ ∀ c ∈ u, isHex c = true

variable {F : Type}

def typeNames : List (List Char) :=
  [['N', 'o', 'n', 'e', 'T', 'y', 'p', 'e'], ['b', 'o', 'o', 'l'], ['i', 'n', 't'],
    ['f', 'l', 'o', 'a', 't'], ['s', 't', 'r'], ['l', 'i', 's', 't'], ['d', 'i', 'c', 't']]

theorem typeName_mem (v : Arg F) : typeName v ∈ typeNames := by
  cases v <;> simp [typeName, typeNames]

theorem typeName_check (v : Arg F) : named.contains (typeName v) = false ∧
    (typeName v).any Char.isDigit = false ∧ (typeName v).all isHex = false ∧
    (typeName v).contains ':' = false := by
  have check : typeNames.all (fun t => !named.contains t && !t.any Char.isDigit && !t.all isHex &&
      !t.contains ':') = true := by decide
  have each := List.all_eq_true.mp check _ (typeName_mem v)
  simpa only [Bool.and_eq_true, Bool.not_eq_true', and_assoc] using each

theorem typeName_not_plain (v : Arg F) : ¬Plain (typeName v) := by
  obtain ⟨unnamed, digits, hexadecimal, -⟩ := typeName_check v
  rintro (name | digit | all)
  · rw [List.contains_iff_mem.mpr name] at unnamed
    cases unnamed
  · rw [List.any_eq_true.mpr digit] at digits
    cases digits
  · rw [List.all_eq_true.mpr all] at hexadecimal
    cases hexadecimal

theorem colon_mem_word {u : List Char} : colon ∈ word u ↔ ':' ∈ u := by
  rw [word, List.mem_map]
  constructor
  · rintro ⟨c, member, same⟩
    cases same
    exact member
  · exact fun member => ⟨':', member, rfl⟩

theorem word_injective {t u : List Char} (same : word t = word u) : t = u :=
  List.map_injective_iff.mpr (fun _ _ h => Point.char.inj h) same

theorem colon_not_mem_typeName (v : Arg F) : colon ∉ word (typeName v) := by
  rw [colon_mem_word]
  intro member
  have free := (typeName_check v).2.2.2
  rw [List.contains_iff_mem.mpr member] at free
  cases free

theorem typeName_eq_str {v : Arg F} : typeName v = ['s', 't', 'r'] ↔ ∃ s, v = .str s := by
  cases v <;> simp [typeName]

variable [Python F] {limit : Nat} {digest : List Char → List Char}

theorem processVal_eq_ok {v : Arg F} {p : Str} : processVal limit digest v = .ok p ↔
    ∃ t, text limit digest v = .ok t ∧ p = word (typeName v) ++ colon :: t := by
  constructor
  · intro written
    obtain ⟨t, body, h⟩ := returned_bind written
    cases h
    exact ⟨t, body, rfl⟩
  · rintro ⟨t, body, rfl⟩
    rw [processVal, body]
    rfl

variable [LawfulPython F]

theorem floatText_cases (x : F) :
    (x = Floats.nan ∧ floatText x = ['n', 'a', 'n']) ∨
    (x = Floats.infinity ∧ floatText x = ['i', 'n', 'f']) ∨
    (x = Floats.minusInfinity ∧ floatText x = ['-', 'i', 'n', 'f']) ∨
    Floats.ofText (floatText x) = x ∧ (∃ c ∈ floatText x, c.isDigit = true) ∧
      ':' ∉ floatText x := by
  rcases LawfulFloats.text x with ⟨same, text⟩ | ⟨same, text⟩ | ⟨same, text⟩ |
    ⟨back, minus, w, f, e, whole, -, -, -, text⟩
  · exact .inl ⟨same, by rw [floatText, text]; rfl⟩
  · exact .inr (.inl ⟨same, by rw [floatText, text]; rfl⟩)
  · exact .inr (.inr (.inl ⟨same, by rw [floatText, text]; rfl⟩))
  · obtain ⟨d, ds, rfl, digit⟩ := whole.head
    have member : d ∈ Floats.repr x := by
      rw [text]
      simp
    have other : ∀ u : List Char, u.any Char.isDigit = false → Floats.repr x ≠ u := by
      rintro u none rfl
      rw [List.any_eq_true.mpr ⟨d, member, digit⟩] at none
      cases none
    have plain : floatText x = Floats.repr x := by
      rw [floatText, if_neg (other _ rfl), if_neg (other _ rfl), if_neg (other _ rfl)]
    rw [plain]
    refine .inr (.inr (.inr ⟨back, ⟨d, member, digit⟩, fun inside => ?_⟩))
    have shape := (repr_shape x).1 ':' inside
    exact absurd shape (by decide)

/-- `float` of such a text. -/
def ofFloatText (t : List Char) : F :=
  if t = ['n', 'a', 'n'] then Floats.nan
  else if t = ['i', 'n', 'f'] then Floats.infinity
  else if t = ['-', 'i', 'n', 'f'] then Floats.minusInfinity
  else Floats.ofText t

theorem ofFloatText_floatText (x : F) : ofFloatText (floatText x) = x := by
  rcases floatText_cases x with ⟨same, text⟩ | ⟨same, text⟩ | ⟨same, text⟩ | ⟨back, digit, -⟩
  · rw [text, same]
    rfl
  · rw [text, same]
    rfl
  · rw [text, same]
    rfl
  · have other : ∀ u : List Char, u.any Char.isDigit = false → floatText x ≠ u := by
      rintro u none rfl
      rw [List.any_eq_true.mpr digit] at none
      cases none
    rw [ofFloatText, if_neg (other _ rfl), if_neg (other _ rfl), if_neg (other _ rfl), back]

theorem dumpsInt_injective {m n : Int} {t : List Char} (first : dumpsInt m = .ok t)
    (second : dumpsInt n = .ok t) : m = n := by
  have free : Free continues [] := fun c none => by cases none
  have left := scalar_dumpsInt (F := Special) first free
  rw [scalar_dumpsInt second free] at left
  injection left with same
  injection same with value
  injection value with same
  exact same.symm

theorem text_plain (hash : CollisionFree digest) {v : Arg F} {t : Str}
    (written : text limit digest v = .ok t) (other : ∀ s, v ≠ .str s) :
    ∃ u, t = word u ∧ ':' ∉ u ∧ Plain u := by
  have front : ∀ p, ':' ∉ digest p ∧ Plain (digest p) := fun p =>
    ⟨fun member => absurd (hash.hexadecimal p _ member) (by decide), .inr (.inr (hash.hexadecimal p))⟩
  cases v with
  | null =>
    cases written
    exact ⟨_, rfl, by decide, .inl (by decide)⟩
  | bool b =>
    cases b <;> cases written <;> exact ⟨_, rfl, by decide, .inl (by decide)⟩
  | int n =>
    obtain ⟨u, digits, h⟩ := returned_bind written
    cases h
    obtain ⟨-, rfl⟩ := dumpsInt_eq_ok digits
    refine ⟨_, rfl, ?_, .inr (.inl ?_)⟩
    · rw [List.mem_append, not_or]
      exact ⟨by split <;> decide, Text.not_mem_decimal (by decide) _⟩
    · obtain ⟨d, ds, same⟩ := List.exists_cons_of_ne_nil (Text.decimal_ne_nil n.natAbs)
      have member : d ∈ Text.decimal n.natAbs := same ▸ List.mem_cons_self
      exact ⟨d, List.mem_append_right _ member, Text.isDigit_of_mem_decimal member⟩
  | float x =>
    cases written
    rcases floatText_cases x with ⟨-, same⟩ | ⟨-, same⟩ | ⟨-, same⟩ | ⟨-, digit, free⟩
    · rw [same]
      exact ⟨_, rfl, by decide, .inl (by decide)⟩
    · rw [same]
      exact ⟨_, rfl, by decide, .inl (by decide)⟩
    · rw [same]
      exact ⟨_, rfl, by decide, .inl (by decide)⟩
    · exact ⟨_, rfl, free, .inr (.inl digit)⟩
  | str s => exact absurd rfl (other s)
  | list l =>
    obtain ⟨p, -, h⟩ := returned_bind written
    cases h
    exact ⟨_, rfl, front p⟩
  | dict l =>
    obtain ⟨p, -, h⟩ := returned_bind written
    cases h
    exact ⟨_, rfl, front p⟩

def isContainer : Arg F → Bool
  | .list _ => true
  | .dict _ => true
  | _ => false

variable (limit) in
def Owned (v : Arg F) : Prop :=
  ∀ w, typeName w = typeName v → payload limit w = payload limit v → Same w v

theorem text_injective (hash : CollisionFree digest) {v w : Arg F} {t : Str}
    (owned : isContainer v = true → Owned limit v) (types : typeName w = typeName v)
    (first : text limit digest v = .ok t) (second : text limit digest w = .ok t) : Same w v := by
  have payloads : ∀ {p q : List Char}, payload limit v = .ok p → payload limit w = .ok q →
      word (digest p) = word (digest q) → payload limit w = payload limit v := by
    intro p q left right same
    rw [left, right, hash.injective (word_injective same)]
  cases v with
  | null => cases w <;> first | exact .refl _ | exact absurd types (by simp [typeName])
  | bool b =>
    cases w with
    | bool b' => cases b <;> cases b' <;> first | exact .refl _ | (cases first; cases second)
    | _ => exact absurd types (by simp [typeName])
  | int n =>
    cases w with
    | int n' =>
      obtain ⟨p, left, h⟩ := returned_bind first
      cases h
      obtain ⟨q, right, h⟩ := returned_bind second
      have same : q = p := word_injective (Except.ok.inj h)
      rw [dumpsInt_injective left (same ▸ right)]
      exact .refl _
    | _ => exact absurd types (by simp [typeName])
  | float x =>
    cases w with
    | float y =>
      cases first
      have same : floatText y = floatText x := word_injective (Except.ok.inj second)
      rw [← ofFloatText_floatText y, same, ofFloatText_floatText]
      exact .refl _
    | _ => exact absurd types (by simp [typeName])
  | str s =>
    cases w with
    | str s' =>
      cases first
      cases second
      exact .refl _
    | _ => exact absurd types (by simp [typeName])
  | list l =>
    cases w with
    | list m =>
      obtain ⟨p, left, h⟩ := returned_bind first
      cases h
      obtain ⟨q, right, h⟩ := returned_bind second
      exact owned rfl _ types (payloads left right (Except.ok.inj h).symm)
    | _ => exact absurd types (by simp [typeName])
  | dict l =>
    cases w with
    | dict m =>
      obtain ⟨p, left, h⟩ := returned_bind first
      cases h
      obtain ⟨q, right, h⟩ := returned_bind second
      exact owned rfl _ types (payloads left right (Except.ok.inj h).symm)
    | _ => exact absurd types (by simp [typeName])

end Values

section Reading

variable {F : Type} [Python F] [LawfulPython F] {limit : Nat} {digest : List Char → List Char}
variable {as : List (Arg F)} {ks : List (Str × Arg F)}

def strName : Str := word ['s', 't', 'r']

theorem Tail.of_plain (hash : CollisionFree digest)
    (names : ∀ x ∈ ks, Python.isIdentifier F x.1 = true) {v : Arg F} {t r : Str}
    (other : ∀ s, v ≠ .str s) (body : text limit digest v = .ok t) (ended : Ended colon r)
    (tail : Tail limit digest as ks (colon :: (word (typeName v) ++ colon :: (t ++ r)))) :
    ∃ w bs, as = w :: bs ∧ text limit digest w = .ok t ∧ typeName w = typeName v ∧
      Tail limit digest bs ks r := by
  obtain ⟨u, rfl, free, plain⟩ := text_plain hash body other
  have apart : ∀ w : Arg F, word (typeName w) ≠ word u := fun w same =>
    typeName_not_plain w (word_injective same ▸ plain)
  have free : colon ∉ word u := colon_mem_word.not.mpr free
  generalize whole : colon :: (word (typeName v) ++ colon :: (word u ++ r)) = x at tail
  cases tail with
  | nil => cases whole
  | @keyword k w ks p t' value rest =>
    obtain ⟨tw, -, rfl⟩ := processVal_eq_ok.mp value
    have named := LawfulPython.colon_free (F := F) k (names _ List.mem_cons_self)
    obtain ⟨-, same⟩ := front_unique (colon_not_mem_typeName v) named (.cons _) (.cons _)
      (List.cons.inj whole).2
    have same := (List.cons.inj same).2
    rw [List.append_assoc] at same
    obtain ⟨types, -⟩ := front_unique free (colon_not_mem_typeName w) ended (.cons _) same
    exact absurd types.symm (apart w)
  | @positional w bs _ p t' value rest =>
    obtain ⟨tw, second, rfl⟩ := processVal_eq_ok.mp value
    have same := (List.cons.inj whole).2
    rw [List.append_assoc] at same
    obtain ⟨types, same⟩ := front_unique (colon_not_mem_typeName v) (colon_not_mem_typeName w)
      (.cons _) (.cons _) same
    have types := word_injective types
    have plain' : ∀ s, w ≠ .str s := fun s h => by
      obtain ⟨s', h'⟩ := typeName_eq_str.mp (types.trans (typeName_eq_str.mpr ⟨s, h⟩))
      exact other s' h'
    obtain ⟨u', rfl, free', -⟩ := text_plain hash second plain'
    obtain ⟨texts, rfl⟩ := front_unique free (colon_mem_word.not.mpr free') ended rest.ended
      (List.cons.inj same).2
    exact ⟨w, bs, rfl, texts ▸ second, types.symm, rest⟩

theorem Tail.of_str (names : ∀ x ∈ ks, Python.isIdentifier F x.1 = true) {s : Str}
    (tail : Tail limit digest as ks (colon :: (strName ++ colon :: s))) :
    (∃ s' bs t, as = .str s' :: bs ∧ Tail limit digest bs ks t ∧ s = s' ++ t) ∨
      as = [] ∧ ∃ w ls, ks = (strName, w) :: ls := by
  generalize whole : colon :: (strName ++ colon :: s) = x at tail
  have free : colon ∉ strName := by decide
  cases tail with
  | nil => cases whole
  | @keyword k w ks p t' value rest =>
    have named := LawfulPython.colon_free (F := F) k (names _ List.mem_cons_self)
    obtain ⟨same, -⟩ := front_unique free named (.cons _) (.cons _) (List.cons.inj whole).2
    exact .inr ⟨rfl, w, ks, by rw [same]⟩
  | @positional w bs _ p t' value rest =>
    obtain ⟨tw, second, rfl⟩ := processVal_eq_ok.mp value
    have same := (List.cons.inj whole).2
    rw [List.append_assoc] at same
    obtain ⟨types, texts⟩ := front_unique free (colon_not_mem_typeName w) (.cons _) (.cons _) same
    obtain ⟨s', rfl⟩ := typeName_eq_str.mp (word_injective types).symm
    cases second
    exact .inl ⟨_, bs, t', rfl, rest, (List.cons.inj texts).2⟩

theorem Tail.of_keyword (names : ∀ x ∈ ks, Python.isIdentifier F x.1 = true) {k x : Str}
    (named : colon ∉ k) (tail : Tail limit digest [] ks (colon :: (k ++ colon :: x))) :
    ∃ w ls p t, ks = (k, w) :: ls ∧ processVal limit digest w = .ok p ∧
      Tail limit digest [] ls t ∧ x = p ++ t := by
  generalize whole : colon :: (k ++ colon :: x) = y at tail
  cases tail with
  | nil => cases whole
  | @keyword k' w ks p t' value rest =>
    have named' := LawfulPython.colon_free (F := F) k' (names _ List.mem_cons_self)
    obtain ⟨rfl, same⟩ := front_unique named named' (.cons _) (.cons _) (List.cons.inj whole).2
    exact ⟨w, ks, p, t', rfl, value, rest, (List.cons.inj same).2⟩

end Reading

section Separation

variable {F : Type} [Python F] (limit : Nat) (digest : List Char → List Char)

structure Separate (as : List (Arg F)) (ks : List (Str × Arg F)) : Prop where
  /-- Nothing follows a string, -/
  positional : ∀ l s r, as = l ++ .str s :: r → r = [] ∧ ks = []
  keyword : ∀ l k s r, ks = l ++ (k, .str s) :: r → r = []
  /-- whose own end is not what further arguments would add, -/
  positionalEnd : ∀ l s, as = l ++ [.str s] → ∀ t (d : Call F),
    generateCacheKey limit digest t d = .ok s → d.args = [] ∧ d.kwargs = []
  keywordEnd : ∀ l k s, ks = l ++ [(k, .str s)] → ∀ t (d : Call F), d.args = [] →
    (∀ x ∈ d.kwargs, strLess k x.1) → generateCacheKey limit digest t d = .ok s → d.kwargs = []
  /-- nor what a keyword `str` would have as its value and behind it; -/
  positionalKeyword : ∀ l s, as = l ++ [.str s] → ∀ d : Call F, d.args = [] →
    generateCacheKey limit digest [] d ≠ .ok (colon :: (strName ++ colon :: s))
  /-- the first keyword is not `str`, -/
  first : ∀ x ∈ ks.head?, x.1 ≠ strName
  /-- and no list or dict is written as another one. -/
  owned : ∀ v ∈ as ++ ks.map Prod.snd, isContainer v = true → Owned limit v

variable {limit digest} {as bs : List (Arg F)} {ks ls : List (Str × Arg F)} {t : Str}

theorem Separate.positional_tail {v : Arg F} (separate : Separate limit digest (v :: as) ks) :
    Separate limit digest as ks where
  positional l s r same := separate.positional (v :: l) s r (congrArg (v :: ·) same)
  keyword := separate.keyword
  positionalEnd l s same := separate.positionalEnd (v :: l) s (congrArg (v :: ·) same)
  keywordEnd := separate.keywordEnd
  positionalKeyword l s same := separate.positionalKeyword (v :: l) s (congrArg (v :: ·) same)
  first := separate.first
  owned w member := separate.owned w (List.mem_cons_of_mem v member)

/-- Of the keyword arguments alone: that the first is not `str` matters behind positional ones. -/
structure KeywordsSeparate (limit : Nat) (digest : List Char → List Char)
    (ks : List (Str × Arg F)) : Prop where
  keyword : ∀ l k s r, ks = l ++ (k, .str s) :: r → r = []
  keywordEnd : ∀ l k s, ks = l ++ [(k, .str s)] → ∀ t (d : Call F), d.args = [] →
    (∀ x ∈ d.kwargs, strLess k x.1) → generateCacheKey limit digest t d = .ok s → d.kwargs = []
  owned : ∀ v ∈ ks.map Prod.snd, isContainer v = true → Owned limit v

theorem KeywordsSeparate.tail {x : Str × Arg F}
    (separate : KeywordsSeparate limit digest (x :: ks)) : KeywordsSeparate limit digest ks where
  keyword l k s r same := separate.keyword (x :: l) k s r (congrArg (x :: ·) same)
  keywordEnd l k s same := separate.keywordEnd (x :: l) k s (congrArg (x :: ·) same)
  owned w member := separate.owned w (List.mem_cons_of_mem x.2 member)

theorem Separate.keywords (separate : Separate limit digest as ks) :
    KeywordsSeparate limit digest ks where
  keyword := separate.keyword
  keywordEnd := separate.keywordEnd
  owned v member := separate.owned v (List.mem_append_right _ member)

theorem Tail.eq_nil (tail : Tail limit digest as ks []) : as = [] ∧ ks = [] := by
  cases tail
  exact ⟨rfl, rfl⟩

variable [LawfulPython F]

theorem keywords_unique (hash : CollisionFree digest)
    (separate : KeywordsSeparate limit digest ks)
    (names : ∀ x ∈ ks, Python.isIdentifier F x.1 = true)
    (ordered : ls.Pairwise fun x y => strLess x.1 y.1)
    (names' : ∀ x ∈ ls, Python.isIdentifier F x.1 = true)
    (left : Tail limit digest [] ks t) (right : Tail limit digest [] ls t) :
    ls.map Prod.fst = ks.map Prod.fst ∧
      List.Forall₂ Same (ls.map Prod.snd) (ks.map Prod.snd) := by
  induction ks generalizing ls t with
  | nil =>
    cases left
    rw [right.eq_nil.2]
    exact ⟨rfl, .nil⟩
  | cons x ks ih =>
    cases left with
    | @keyword k v _ p u value rest =>
      have named := LawfulPython.colon_free (F := F) k (names _ List.mem_cons_self)
      obtain ⟨w, ls, q, u', rfl, value', rest', same⟩ := right.of_keyword names' named
      obtain ⟨tv, first, rfl⟩ := processVal_eq_ok.mp value
      obtain ⟨tw, second, rfl⟩ := processVal_eq_ok.mp value'
      rw [List.append_assoc, List.append_assoc] at same
      obtain ⟨types, texts⟩ := front_unique (colon_not_mem_typeName v) (colon_not_mem_typeName w)
        (.cons _) (.cons _) same
      have types := (word_injective types).symm
      have texts : tv ++ u = tw ++ u' := (List.cons.inj texts).2
      obtain ⟨below, orderedRest⟩ := List.pairwise_cons.mp ordered
      have namesRest : ∀ x ∈ ls, Python.isIdentifier F x.1 = true :=
        fun x member => names' x (List.mem_cons_of_mem _ member)
      have owned := separate.owned v List.mem_cons_self
      by_cases string : ∃ s, v = .str s
      · obtain ⟨s, rfl⟩ := string
        obtain rfl := separate.keyword [] k s ks rfl
        obtain ⟨s', rfl⟩ := typeName_eq_str.mp types
        obtain rfl : s = tv := Except.ok.inj first
        obtain rfl : s' = tw := Except.ok.inj second
        cases rest
        have texts : s = s' ++ u' := by simpa using texts
        obtain rfl := separate.keywordEnd [] k s rfl s' ⟨[], ls, orderedRest, namesRest⟩ rfl below
          (generateCacheKey_eq_ok.mpr ⟨u', rest', texts⟩)
        cases rest'
        rw [texts, List.append_nil]
        exact ⟨rfl, forall₂_same_refl _⟩
      · have other : ∀ s, v ≠ .str s := fun s same => string ⟨s, same⟩
        have other' : ∀ s, w ≠ .str s := fun s same => by
          obtain ⟨s', same'⟩ := typeName_eq_str.mp (types.symm.trans (typeName_eq_str.mpr ⟨s, same⟩))
          exact other s' same'
        obtain ⟨a, rfl, free, -⟩ := text_plain hash first other
        obtain ⟨b, rfl, free', -⟩ := text_plain hash second other'
        obtain ⟨equal, rfl⟩ := front_unique (colon_mem_word.not.mpr free)
          (colon_mem_word.not.mpr free') rest.ended rest'.ended texts
        have value := text_injective hash owned types first (equal ▸ second)
        obtain ⟨keys, values⟩ := ih separate.tail
          (fun x member => names x (List.mem_cons_of_mem _ member)) orderedRest namesRest rest rest'
        exact ⟨congrArg (k :: ·) keys, .cons value values⟩

theorem arguments_unique (hash : CollisionFree digest) (separate : Separate limit digest as ks)
    (names : ∀ x ∈ ks, Python.isIdentifier F x.1 = true)
    (ordered : ls.Pairwise fun x y => strLess x.1 y.1)
    (names' : ∀ x ∈ ls, Python.isIdentifier F x.1 = true)
    (left : Tail limit digest as ks t) (right : Tail limit digest bs ls t) :
    List.Forall₂ Same bs as ∧ ls.map Prod.fst = ks.map Prod.fst ∧
      List.Forall₂ Same (ls.map Prod.snd) (ks.map Prod.snd) := by
  induction as generalizing bs t with
  | nil =>
    cases bs with
    | nil => exact ⟨.nil, keywords_unique hash separate.keywords names ordered names' left right⟩
    | cons w bs =>
      -- The first positional argument of the one call would be a keyword of the other.
      cases right with
      | @positional _ _ _ p u value rest =>
        obtain ⟨tw, second, rfl⟩ := processVal_eq_ok.mp value
        rw [List.append_assoc] at left
        by_cases string : ∃ s, w = .str s
        · obtain ⟨s, rfl⟩ := string
          rcases Tail.of_str names left with ⟨_, _, _, none, -⟩ | ⟨-, x, ks', rfl⟩
          · cases none
          · exact absurd rfl (separate.first _ rfl)
        · obtain ⟨_, _, none, -⟩ := Tail.of_plain hash names (fun s same => string ⟨s, same⟩) second
            rest.ended left
          cases none
  | cons v as ih =>
    cases left with
    | @positional _ _ _ p u value rest =>
      obtain ⟨tv, first, rfl⟩ := processVal_eq_ok.mp value
      rw [List.append_assoc] at right
      by_cases string : ∃ s, v = .str s
      · obtain ⟨s, rfl⟩ := string
        obtain ⟨rfl, rfl⟩ := separate.positional [] s as rfl
        obtain rfl : s = tv := Except.ok.inj first
        cases rest
        rcases Tail.of_str names' right with ⟨s', bs, t', rfl, tail, same⟩ | ⟨rfl, x, ls, rfl⟩
        · have same : s = s' ++ t' := by simpa using same
          obtain ⟨none, none'⟩ := separate.positionalEnd [] s rfl s' ⟨bs, ls, ordered, names'⟩
            (generateCacheKey_eq_ok.mpr ⟨t', tail, same⟩)
          dsimp only at none none'
          subst none none'
          cases tail
          rw [same, List.append_nil]
          exact ⟨forall₂_same_refl _, rfl, .nil⟩
        · rw [List.append_nil] at right
          exact absurd (generateCacheKey_eq_ok.mpr ⟨_, right, rfl⟩)
            (separate.positionalKeyword [] s rfl ⟨[], _, ordered, names'⟩ rfl)
      · obtain ⟨w, bs, rfl, second, types, tail⟩ :=
          Tail.of_plain hash names' (fun s same => string ⟨s, same⟩) first rest.ended right
        have owned := separate.owned v List.mem_cons_self
        obtain ⟨args, keywords⟩ := ih separate.positional_tail rest tail
        exact ⟨.cons (text_injective hash owned types first second) args, keywords⟩

end Separation

section Collisions

variable {F : Type} [Python F] {limit : Nat} {digest : List Char → List Char}

theorem strLess_trans {s t u : Str} (first : strLess s t) (second : strLess t u) : strLess s u :=
  lt_trans first second

theorem exists_call (c : Call F) (as : List (Arg F)) (ks : List (Str × Arg F))
    (fewer : (ks.map Prod.fst).Sublist (c.kwargs.map Prod.fst)) :
    ∃ d : Call F, d.args = as ∧ d.kwargs = ks := by
  have ordered := (List.pairwise_map.mpr c.ordered).sublist fewer
  refine ⟨⟨as, ks, List.pairwise_map.mp ordered, fun x member => ?_⟩, rfl, rfl⟩
  obtain ⟨y, member', same⟩ := List.mem_map.mp (fewer.subset (List.mem_map_of_mem member))
  exact same ▸ c.names y member'

theorem forall₂_middle {α : Type} {R : α → α → Prop} {l r : List α} {v w : α}
    (all : List.Forall₂ R (l ++ w :: r) (l ++ v :: r)) : R w v := by
  induction l with
  | nil => exact (List.forall₂_cons.mp all).1
  | cons x l ih => exact ih (List.forall₂_cons.mp all).2

theorem processVal_congr (digest : List Char → List Char) {v w : Arg F} (container : isContainer v = true)
    (types : typeName w = typeName v) (same : payload limit w = payload limit v) :
    processVal limit digest w = processVal limit digest v := by
  have texts : text limit digest w = text limit digest v := by
    cases v with
    | list l =>
      cases w with
      | list m =>
        rw [text, text, same] <;> simp
      | _ => exact absurd types (by simp [typeName])
    | dict l =>
      cases w with
      | dict m =>
        rw [text, text, same] <;> simp
      | _ => exact absurd types (by simp [typeName])
    | _ => cases container
  rw [processVal, processVal, types, texts]

theorem processVal_str (s : Str) :
    processVal limit digest (.str s : Arg F) = .ok (strName ++ colon :: s) := rfl

variable (limit digest) in
structure Alone (c : Call F) (t : Str) : Prop where
  tail : Tail limit digest c.args c.kwargs t
  alike : ∀ d : Call F, Tail limit digest d.args d.kwargs t → Alike d c

variable {c : Call F} {t : Str}

theorem Alone.lengths (alone : Alone limit digest c t) {as : List (Arg F)}
    {ks : List (Str × Arg F)} {u : Str} (fewer : (ks.map Prod.fst).Sublist (c.kwargs.map Prod.fst))
    (tail : Tail limit digest as ks u) (same : u = t) :
    as.length = c.args.length ∧ ks.length = c.kwargs.length := by
  obtain ⟨d, rfl, rfl⟩ := exists_call c as _ fewer
  have alike := alone.alike d (same ▸ tail)
  refine ⟨alike.args.length_eq, ?_⟩
  rw [← List.length_map (f := Prod.fst), alike.names, List.length_map]

theorem Alone.positional_last (alone : Alone limit digest c t) {l r : List (Arg F)} {s : Str}
    (same : c.args = l ++ .str s :: r) : r = [] := by
  cases r with
  | nil => rfl
  | cons v r =>
    have tail := alone.tail
    rw [same] at tail
    obtain ⟨p, u, before, behind, whole⟩ := tail_args_append.mp tail
    cases behind with
    | positional first behind =>
      cases behind with
      | @positional _ _ _ q u second rest =>
        cases first
        have merged := tail_args_append.mpr ⟨p, _, before,
          .positional (processVal_str (s ++ colon :: q)) rest, rfl⟩
        have lengths := (alone.lengths (.refl _) merged (by simp [whole, strName, typeName])).1
        rw [same] at lengths
        simp at lengths

theorem Alone.positional_no_keyword (alone : Alone limit digest c t) {l : List (Arg F)} {s : Str}
    (same : c.args = l ++ [.str s]) : c.kwargs = [] := by
  cases keywords : c.kwargs with
  | nil => rfl
  | cons x ks =>
    have tail := alone.tail
    rw [same, keywords] at tail
    obtain ⟨p, u, before, behind, whole⟩ := tail_args_append.mp tail
    cases behind with
    | positional first behind =>
      cases behind with
      | @keyword k v _ q u second rest =>
        cases first
        have merged := tail_args_append.mpr ⟨p, _, before,
          .positional (processVal_str (s ++ colon :: (k ++ colon :: q))) rest, rfl⟩
        have fewer : (ks.map Prod.fst).Sublist (c.kwargs.map Prod.fst) := by
          rw [keywords]
          exact List.sublist_cons_self _ _
        have lengths := (alone.lengths fewer merged (by simp [whole, strName, typeName])).2
        rw [keywords] at lengths
        simp at lengths

theorem Alone.keyword_last (alone : Alone limit digest c t) {l r : List (Str × Arg F)} {k s : Str}
    (same : c.kwargs = l ++ (k, .str s) :: r) : r = [] := by
  cases r with
  | nil => rfl
  | cons x r =>
    have tail := alone.tail
    rw [same] at tail
    obtain ⟨p, u, before, behind, whole⟩ := tail_kwargs_append.mp tail
    cases behind with
    | keyword first behind =>
      cases behind with
      | @keyword k' v _ q u second rest =>
        cases first
        have merged := tail_kwargs_append.mpr ⟨p, _, before,
          .keyword (k := k) (processVal_str (s ++ colon :: (k' ++ colon :: q))) rest, rfl⟩
        have fewer : ((l ++ (k, .str (s ++ colon :: (k' ++ colon :: q)) ) :: r).map Prod.fst).Sublist
            (c.kwargs.map Prod.fst) := by
          rw [same, List.map_append, List.map_append]
          exact (List.Sublist.refl _).append (.cons_cons _ (List.sublist_cons_self _ _))
        have lengths := (alone.lengths fewer merged (by simp [whole, strName, typeName])).2
        rw [same] at lengths
        simp at lengths

theorem Alone.positional_end (alone : Alone limit digest c t) {l : List (Arg F)} {s u v : Str}
    (same : c.args = l ++ [.str s]) {d : Call F} (tail : Tail limit digest d.args d.kwargs v)
    (ends : s = u ++ v) : d.args = [] ∧ d.kwargs = [] := by
  have none := alone.positional_no_keyword same
  have whole := alone.tail
  rw [same, none] at whole
  obtain ⟨p, q, before, behind, rfl⟩ := tail_args_append.mp whole
  cases behind with
  | positional first rest =>
    cases first
    cases rest
    have longer := tail_args_append.mpr ⟨p, _, before, .positional (processVal_str u) tail, rfl⟩
    have alike := alone.alike ⟨l ++ .str u :: d.args, d.kwargs, d.ordered, d.names⟩ (by
      simpa [ends, strName, typeName] using longer)
    have lengths := alike.args.length_eq
    have names := alike.names
    rw [same] at lengths
    rw [none] at names
    exact ⟨by simpa using lengths, by simpa using names⟩

theorem Alone.positional_keyword (alone : Alone limit digest c t) {l : List (Arg F)} {s : Str}
    (same : c.args = l ++ [.str s]) {d : Call F}
    (tail : Tail limit digest [] d.kwargs (colon :: (strName ++ colon :: s))) : False := by
  have whole := alone.tail
  rw [same, alone.positional_no_keyword same] at whole
  obtain ⟨p, q, before, behind, rfl⟩ := tail_args_append.mp whole
  cases behind with
  | positional first rest =>
    cases first
    cases rest
    have other := tail_kwargs_append.mpr ⟨p, _, before, tail, rfl⟩
    have alike := alone.alike ⟨l, d.kwargs, d.ordered, d.names⟩ (by
      simpa [strName, typeName] using other)
    have lengths := alike.args.length_eq
    rw [same] at lengths
    simp at lengths

theorem Alone.keyword_end (alone : Alone limit digest c t) {l : List (Str × Arg F)} {k s u v : Str}
    (same : c.kwargs = l ++ [(k, .str s)]) {d : Call F} (above : ∀ x ∈ d.kwargs, strLess k x.1)
    (tail : Tail limit digest [] d.kwargs v) (ends : s = u ++ v) : d.kwargs = [] := by
  have whole := alone.tail
  rw [same] at whole
  obtain ⟨p, q, before, behind, rfl⟩ := tail_kwargs_append.mp whole
  cases behind with
  | keyword first rest =>
    cases first
    cases rest
    have longer := tail_kwargs_append.mpr ⟨p, _, before,
      .keyword (k := k) (processVal_str u) tail, rfl⟩
    have ordered := c.ordered
    have names := c.names
    rw [same, List.pairwise_append] at ordered
    rw [same, List.forall_mem_append] at names
    have below : ∀ x ∈ l, strLess x.1 k := fun x member =>
      ordered.2.2 x member _ List.mem_cons_self
    have alike := alone.alike ⟨c.args, l ++ (k, .str u) :: d.kwargs,
      List.pairwise_append.mpr ⟨ordered.1, List.pairwise_cons.mpr ⟨above, d.ordered⟩,
        fun x member => List.forall_mem_cons.mpr ⟨below x member, fun y member' =>
          strLess_trans (below x member) (above y member')⟩⟩,
      List.forall_mem_append.mpr ⟨names.1, List.forall_mem_cons.mpr
        ⟨names.2 (k, .str s) List.mem_cons_self, d.names⟩⟩⟩ (by
      simpa [ends, strName, typeName] using longer)
    have lengths := alike.values.length_eq
    rw [same] at lengths
    simpa using lengths

theorem Alone.first (alone : Alone limit digest c t) {x : Str × Arg F} (head : x ∈ c.kwargs.head?) :
    x.1 ≠ strName := by
  intro name
  cases keywords : c.kwargs with
  | nil =>
    rw [keywords] at head
    cases head
  | cons y ks =>
    rw [keywords] at head
    cases head
    have whole := alone.tail
    rw [keywords] at whole
    rw [← List.nil_append (x :: ks)] at whole
    obtain ⟨p, u, before, behind, same⟩ := tail_kwargs_append.mp whole
    cases behind with
    | @keyword k v _ q u value rest =>
      obtain rfl : k = strName := name
      have other := tail_args_append.mpr ⟨p, _, before, .positional (processVal_str q) rest, rfl⟩
      have fewer : (ks.map Prod.fst).Sublist (c.kwargs.map Prod.fst) := by
        rw [keywords]
        exact List.sublist_cons_self _ _
      have lengths := (alone.lengths fewer other (by simp [same])).1
      simp at lengths

theorem Alone.owned (alone : Alone limit digest c t) {v : Arg F}
    (member : v ∈ c.args ++ c.kwargs.map Prod.snd) (container : isContainer v = true) :
    Owned limit v := by
  intro w types same
  have values := processVal_congr digest container types same
  have whole := alone.tail
  rcases List.mem_append.mp member with positional | keyword
  · obtain ⟨l, r, split⟩ := List.append_of_mem positional
    rw [split] at whole
    obtain ⟨p, u, before, behind, rfl⟩ := tail_args_append.mp whole
    cases behind with
    | positional first rest =>
      have other := tail_args_append.mpr ⟨p, _, before, .positional (values.trans first) rest, rfl⟩
      have alike := (alone.alike ⟨l ++ w :: r, c.kwargs, c.ordered, c.names⟩ other).args
      rw [split] at alike
      exact forall₂_middle alike
  · obtain ⟨⟨k, v'⟩, inside, rfl⟩ := List.mem_map.mp keyword
    obtain ⟨l, r, split⟩ := List.append_of_mem inside
    rw [split] at whole
    obtain ⟨p, u, before, behind, rfl⟩ := tail_kwargs_append.mp whole
    cases behind with
    | keyword first rest =>
      have other := tail_kwargs_append.mpr ⟨p, _, before,
        .keyword (k := k) (values.trans first) rest, rfl⟩
      obtain ⟨d, args, kwargs⟩ := exists_call c c.args (l ++ (k, w) :: r) (by
        rw [split, List.map_append, List.map_append]
        exact .refl _)
      have alike := (alone.alike d (by rw [args, kwargs]; exact other)).values
      rw [kwargs, split, List.map_append, List.map_append] at alike
      exact forall₂_middle alike

theorem Alone.separate (alone : Alone limit digest c t) :
    Separate limit digest c.args c.kwargs where
  positional l s r same := by
    obtain rfl := alone.positional_last same
    exact ⟨rfl, alone.positional_no_keyword same⟩
  keyword l k s r same := alone.keyword_last same
  positionalEnd l s same u d key := by
    obtain ⟨v, tail, ends⟩ := generateCacheKey_eq_ok.mp key
    exact alone.positional_end same tail ends
  keywordEnd l k s same u d none above key := by
    obtain ⟨v, tail, ends⟩ := generateCacheKey_eq_ok.mp key
    exact alone.keyword_end same above (none ▸ tail) ends
  positionalKeyword l s same d none key := by
    obtain ⟨v, tail, ends⟩ := generateCacheKey_eq_ok.mp key
    rw [none, ← List.nil_append v, ← ends] at tail
    exact alone.positional_keyword same tail
  first x head := alone.first head
  owned v member container := alone.owned member container

end Collisions

section Main

variable {F : Type} [Python F] [LawfulPython F] {limit : Nat} {digest : List Char → List Char}

end Main

section Instances

def spelled (t : List Char) : List Char := t.flatMap fun c => Text.decimal c.toNat ++ ['a']

theorem spelled_injective : Function.Injective spelled := by
  intro t
  induction t with
  | nil =>
    intro u same
    cases u with
    | nil => rfl
    | cons c u =>
      have lengths := congrArg List.length same
      simp [spelled] at lengths
  | cons c t ih =>
    intro u same
    cases u with
    | nil =>
      have lengths := congrArg List.length same
      simp [spelled] at lengths
    | cons d u =>
      have same : Text.decimal c.toNat ++ 'a' :: spelled t = Text.decimal d.toNat ++ 'a' :: spelled u := by
        simpa [spelled] using same
      obtain ⟨codes, rests⟩ := front_unique (Text.not_mem_decimal (by decide) _)
        (Text.not_mem_decimal (by decide) _) (.cons _) (.cons _) same
      have code := Text.decimal_injective codes
      rw [ih (List.cons.inj rests).2, ← Char.ofNat_toNat c, code, Char.ofNat_toNat]

theorem spelled_collisionFree : CollisionFree spelled where
  hexadecimal t c member := by
    obtain ⟨d, -, inside⟩ := List.mem_flatMap.mp member
    rcases List.mem_append.mp inside with digit | last
    · rw [isHex, Text.isDigit_of_mem_decimal digit, Bool.true_or]
    · rw [List.mem_singleton.mp last]
      rfl
  injective := spelled_injective

def isLetter : Point → Bool
  | .char c => c.isAlpha || c == '_'
  | _ => false

instance : Python Special where
  less
    | .inl m, .inl n => decide (m < n)
    | .inr .minusInfinity, .inl _ => true
    | .inr .minusInfinity, .inr .infinity => true
    | .inl _, .inr .infinity => true
    | _, _ => false
  isPrintable _ := true
  isIdentifier name := !name.isEmpty && name.all isLetter

instance : LawfulPython Special where
  colon_free name identifier member := by
    have letters := (Bool.and_eq_true _ _ ▸ identifier : _ ∧ name.all isLetter = true).2
    exact absurd (List.all_eq_true.mp letters colon member) (by decide)
  str_identifier := rfl

def positional (args : List (Arg Special)) : Call Special :=
  ⟨args, [], .nil, fun _ member => absurd member List.not_mem_nil⟩

def one (s : List Char) : Call Special := positional [.int 1, .str (word s)]

end Instances

end Plexichat.Database.CacheKeys
