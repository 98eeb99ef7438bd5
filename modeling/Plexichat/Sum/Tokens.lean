import Plexichat.Library.Checks
import Plexichat.Library.Numeral
import Plexichat.Sum.Formula

/-! _formula_shared.py: the tokens of a formula. `float` is a parameter, and so is the type of
the numbers. -/
namespace Plexichat.Sum.Tokens

open Formula (Text)

inductive Op where
  | le | ge | ne | eq | lt | gt | add | sub | mul | div | pow | concat | percent
  deriving DecidableEq

def Op.text : Op → Text
  | .le => ['<', '=']
  | .ge => ['>', '=']
  | .ne => ['<', '>']
  | .eq => ['=']
  | .lt => ['<']
  | .gt => ['>']
  | .add => ['+']
  | .sub => ['-']
  | .mul => ['*']
  | .div => ['/']
  | .pow => ['^']
  | .concat => ['&']
  | .percent => ['%']

/-- The token `eof` is the end of the list. -/
inductive Token (ν : Type) where
  | num (value : ν)
  | str (value : Text)
  | bool (value : Bool)
  | ref (value : Text)
  | id (value : Text)
  | op (value : Op)
  | lparen | rparen | comma
  deriving DecidableEq

/-- `token.value`, where it is a text. -/
def Token.value {ν : Type} : Token ν → Option Text
  | .num _ | .bool _ => none
  | .str s | .ref s | .id s => some s
  | .op o => some o.text
  | .lparen => some ['(']
  | .rparen => some [')']
  | .comma => some [',']

/-! ### The pattern of a token

Each alternative gives the number of characters it matches. Where an alternative can match in
more than one way, the first way that succeeds in the order of the pattern is taken. -/

inductive Kind where
  | ws | num | str | ref | op | lparen | rparen | comma | id
  deriving DecidableEq

def digit (c : Char) : Bool := '0' ≤ c && c ≤ '9'
def letter (c : Char) : Bool := 'A' ≤ c && c ≤ 'Z' || 'a' ≤ c && c ≤ 'z'
/-- `[A-Za-z_]` -/
def initial (c : Char) : Bool := letter c || c == '_'
/-- `[A-Za-z0-9_]` -/
def wordChar (c : Char) : Bool := initial c || digit c

/-- `[..]+` -/
def some1 (p : Char → Bool) (text : Text) : Option Nat :=
  match (text.takeWhile p).length with
  | 0 => none
  | n + 1 => some (n + 1)

/-- `[+-]?[0-9]+` after `[eE]` -/
def exponent (text : Text) : Nat :=
  match text with
  | 'e' :: rest | 'E' :: rest =>
    match rest with
    | '+' :: digits | '-' :: digits => ((some1 digit digits).map (· + 2)).getD 0
    | digits => ((some1 digit digits).map (· + 1)).getD 0
  | _ => 0

def mantissa (text : Text) : Option Nat :=
  match some1 digit text with
  | some n =>
    match text.drop n with
    | '.' :: rest => some (n + 1 + (rest.takeWhile digit).length)
    | _ => some n
  | none =>
    match text with
    | '.' :: rest => (some1 digit rest).map (· + 1)
    | _ => none

def number (text : Text) : Option Nat :=
  (mantissa text).map fun n => n + exponent (text.drop n)

/-- `(?:[^"]|"")*"`. A doubled quote closes the string where no later quote does. -/
def closing : Text → Option Nat
  | '"' :: '"' :: rest => some (((closing rest).map (· + 2)).getD 1)
  | '"' :: _ => some 1
  | _ :: rest => (closing rest).map (· + 1)
  | [] => none

def quoted (text : Text) : Option Nat :=
  match text with
  | '"' :: rest => (closing rest).map (· + 1)
  | _ => none

def identifier (text : Text) : Option Nat :=
  match text with
  | c :: rest => if initial c then some (1 + (rest.takeWhile wordChar).length) else none
  | [] => none

def followedBy (c : Char) (text : Text) (n : Nat) : Option Nat :=
  if (text.drop n).head? = some c then some (n + 1) else none

/-- `(?:'[^']*'|[A-Za-z_][A-Za-z0-9_]*)!` -/
def sheetName (text : Text) : Option Nat :=
  match text with
  | '\'' :: rest => do
    let name ← followedBy '\'' rest (rest.takeWhile (· ≠ '\'')).length
    let marked ← followedBy '!' rest name
    pure (marked + 1)
  | _ => (identifier text).bind (followedBy '!' text)

def dollar (text : Text) : Nat := if text.head? = some '$' then 1 else 0

/-- `\$?[A-Za-z]+\$?[0-9]+`. A shorter match is always followed by a letter or a digit, which
nothing of the pattern allows. -/
def cellName (text : Text) : Option Nat := do
  let start := dollar text
  let letters ← some1 letter (text.drop start)
  let middle := start + letters + dollar (text.drop (start + letters))
  let digits ← some1 digit (text.drop middle)
  pure (middle + digits)

def cellNames (text : Text) : List Nat :=
  ((sheetName text).bind fun n => (cellName (text.drop n)).map (n + ·)).toList ++
    (cellName text).toList

/-- `(?![A-Za-z0-9_])` -/
def boundary (text : Text) : Bool := !(text.head?.any wordChar)

def reference (text : Text) : Option Nat :=
  ((cellNames text).flatMap fun n =>
    (match text.drop n with
      | ':' :: rest => (cellNames rest).map (n + 1 + ·)
      | _ => []) ++ [n]).find? fun n => boundary (text.drop n)

def operator (text : Text) : Option Op :=
  match text with
  | '<' :: '=' :: _ => some .le
  | '>' :: '=' :: _ => some .ge
  | '<' :: '>' :: _ => some .ne
  | '=' :: _ => some .eq
  | '<' :: _ => some .lt
  | '>' :: _ => some .gt
  | '+' :: _ => some .add
  | '-' :: _ => some .sub
  | '*' :: _ => some .mul
  | '/' :: _ => some .div
  | '^' :: _ => some .pow
  | '&' :: _ => some .concat
  | '%' :: _ => some .percent
  | _ => none

/-- `(?:\.[A-Za-z_][A-Za-z0-9_]*)*`, read with as much fuel as there are characters. -/
def dotted : Nat → Text → Nat
  | fuel + 1, '.' :: rest =>
    match identifier rest with
    | some n => n + 1 + dotted fuel (rest.drop n)
    | none => 0
  | _, _ => 0

def name (text : Text) : Option Nat :=
  (identifier text).map fun n => n + dotted text.length (text.drop n)

def single (c : Char) (text : Text) : Option Nat := if text.head? = some c then some 1 else none

/-- `_TOKEN_RE.match(text, pos)` -/
@[irreducible] def tokenMatch (text : Text) : Option (Kind × Nat) :=
  (some1 Numeral.isSpace text).map (Kind.ws, ·)
    <|> (number text).map (Kind.num, ·)
    <|> (quoted text).map (Kind.str, ·)
    <|> (reference text).map (Kind.ref, ·)
    <|> (operator text).map (fun o => (Kind.op, o.text.length))
    <|> (single '(' text).map (Kind.lparen, ·)
    <|> (single ')' text).map (Kind.rparen, ·)
    <|> (single ',' text).map (Kind.comma, ·)
    <|> (name text).map (Kind.id, ·)

/-! ### `_tokenize` -/

/-- `[A-Za-z]+[0-9]+` -/
def simpleRef (raw : Text) : Bool :=
  let digits := raw.dropWhile letter
  digits.length < raw.length && !digits.isEmpty && digits.all digit

/-- `text.replace('""', '"')` -/
def unescape : Text → Text
  | '"' :: '"' :: rest => '"' :: unescape rest
  | c :: rest => c :: unescape rest
  | [] => []

def upper (raw : Text) : Text := raw.map Char.toUpper

def beforeParen (following : Text) : Bool :=
  (following.dropWhile Numeral.isSpace).head? = some '('

def token {ν : Type} (float : Text → ν) (kind : Kind) (raw following : Text) :
    Option (Token ν) :=
  match kind with
  | .ws => none
  | .num => some (.num (float raw))
  | .str => some (.str (unescape (raw.drop 1).dropLast))
  | .ref =>
    if beforeParen following && simpleRef raw then some (.id (upper raw)) else some (.ref raw)
  | .id =>
    let upper := upper raw
    if upper = ['T', 'R', 'U', 'E'] then
      if beforeParen following then some (.id upper) else some (.bool true)
    else if upper = ['F', 'A', 'L', 'S', 'E'] then
      if beforeParen following then some (.id upper) else some (.bool false)
    else some (.id upper)
  | .lparen => some .lparen
  | .rparen => some .rparen
  | .comma => some .comma
  | .op => (operator raw).map .op

/-- The loop of `_tokenize`; `skip` characters belong to the last match. The error is the
position of the character that nothing matches. -/
def tokenizeFrom {ν : Type} (float : Text → ν) (pos skip : Nat) (text : Text) :
    Except Nat (List (Token ν)) :=
  match skip, text with
  | _, [] => .ok []
  | skip + 1, _ :: rest => tokenizeFrom float (pos + 1) skip rest
  | 0, c :: rest =>
    match tokenMatch (c :: rest) with
    | none => .error pos
    | some (kind, n) => do
      let tokens ← tokenizeFrom float (pos + 1) (n - 1) rest
      pure ((token float kind ((c :: rest).take n) ((c :: rest).drop n)).toList ++ tokens)

def tokenize {ν : Type} (float : Text → ν) (text : Text) : Except Nat (List (Token ν)) :=
  tokenizeFrom float 0 0 text

theorem toUpper_eq_paren {c p : Char} (paren : p = '(' ∨ p = ')') (same : c.toUpper = p) :
    c = p := by
  unfold Char.toUpper at same
  split at same
  · rename_i lower
    have code := congrArg (fun p : Char => p.val.toNat) same
    dsimp only at code
    have low : 97 ≤ c.val.toNat := lower.1
    have high : c.val.toNat ≤ 122 := lower.2
    have shift : ('A'.val - 'a'.val).toNat = 4294967264 := by decide
    rw [UInt32.toNat_add, shift] at code
    have value : p.val.toNat ≤ 41 := by
      obtain rfl | rfl := paren <;> decide
    omega
  · exact same

theorem upper_eq_paren {raw : Text} {p : Char} (paren : p = '(' ∨ p = ')')
    (same : upper raw = [p]) : raw = [p] := by
  obtain ⟨c, rfl, first⟩ := List.map_eq_singleton_iff.mp same
  rw [toUpper_eq_paren paren first]

theorem tokenMatch_paren {p : Char} (paren : p = '(' ∨ p = ')') (rest : Text) :
    tokenMatch (p :: rest) = some (if p = '(' then .lparen else .rparen, 1) := by
  unfold tokenMatch
  obtain rfl | rfl := paren
  · rfl
  · rfl

theorem token_paren {ν : Type} {float : Text → ν} {p c : Char} {rest following : Text} {kind : Kind}
    {n : Nat} {tok : Token ν} (paren : p = '(' ∨ p = ')')
    (matched : tokenMatch (c :: rest) = some (kind, n))
    (appended : token float kind ((c :: rest).take n) following = some tok)
    (value : tok.value = some [p]) : tok = .lparen ∨ tok = .rparen ∨ ∃ s, tok = .str s := by
  -- the text of a reference or a name would be the parenthesis itself, which is another match
  have absurd_ (notParen : kind = .ref ∨ kind = .id)
      (raw : (c :: rest).take n = [p]) : False := by
    cases n with
    | zero => cases raw
    | succ n =>
      obtain rfl : c = p := (List.cons.inj raw).1
      rw [tokenMatch_paren paren rest, Option.some.injEq, Prod.mk.injEq] at matched
      obtain ⟨same, _⟩ := matched
      split at same <;> obtain rfl | rfl := notParen <;> cases same
  match kind, appended with
  | .num, appended =>
    obtain rfl := Option.some.inj appended
    cases value
  | .str, appended => exact .inr (.inr ⟨_, (Option.some.inj appended).symm⟩)
  | .ref, appended =>
    simp only [token] at appended
    split at appended <;> obtain rfl := Option.some.inj appended
    · exact (absurd_ (.inl rfl) (upper_eq_paren paren (Option.some.inj value))).elim
    · exact (absurd_ (.inl rfl) (Option.some.inj value)).elim
  | .id, appended =>
    have raw : tok = .id (upper ((c :: rest).take n)) ∨ ∃ b, tok = .bool b := by
      simp only [token] at appended
      split_ifs at appended <;> obtain rfl := Option.some.inj appended <;> simp
    obtain rfl | ⟨b, rfl⟩ := raw
    · exact (absurd_ (.inr rfl) (upper_eq_paren paren (Option.some.inj value))).elim
    · cases value
  | .lparen, appended => exact .inl (Option.some.inj appended).symm
  | .rparen, appended => exact .inr (.inl (Option.some.inj appended).symm)
  | .comma, appended =>
    obtain rfl := Option.some.inj appended
    obtain rfl | rfl := paren <;> cases value
  | .op, appended =>
    obtain ⟨o, _, rfl⟩ := Option.map_eq_some_iff.mp appended
    obtain rfl | rfl := paren <;> cases o <;> cases value

theorem tokenizeFrom_paren {ν : Type} {float : Text → ν} {text : Text} {pos skip : Nat}
    {tokens : List (Token ν)} (produced : tokenizeFrom float pos skip text = .ok tokens) {p : Char}
    (paren : p = '(' ∨ p = ')') {tok : Token ν} (mem : tok ∈ tokens)
    (value : tok.value = some [p]) : tok = .lparen ∨ tok = .rparen ∨ ∃ s, tok = .str s := by
  induction text generalizing pos skip tokens with
  | nil =>
    obtain rfl : [] = tokens := by cases skip <;> exact Except.ok.inj produced
    cases mem
  | cons c rest ih =>
    cases skip with
    | succ skip => exact ih produced mem
    | zero =>
      rw [tokenizeFrom] at produced
      split at produced
      · cases produced
      · rename_i kind n matched
        obtain ⟨others, later, together⟩ := Checks.returned_bind produced
        obtain rfl := Except.ok.inj together
        obtain mem | mem := List.mem_append.mp mem
        · exact token_paren paren matched (Option.mem_toList.mp mem) value
        · exact ih later mem

theorem tokenize_paren {ν : Type} {float : Text → ν} {text : Text} {tokens : List (Token ν)}
    (produced : tokenize float text = .ok tokens) {p : Char} (paren : p = '(' ∨ p = ')')
    {tok : Token ν} (mem : tok ∈ tokens) (value : tok.value = some [p]) :
    tok = .lparen ∨ tok = .rparen ∨ ∃ s, tok = .str s :=
  tokenizeFrom_paren produced paren mem value

end Plexichat.Sum.Tokens
