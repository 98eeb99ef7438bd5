import Plexichat.Sum.Tokens

/-! _formula_shared.py: `_Parser`, a function for each level of precedence, and the grammar it
follows. Fuel bounds the nesting and the loops; more fuel than there are tokens is enough
(`parse_returns`). The stack of the interpreter is not modelled. -/
namespace Plexichat.Sum.Parser

open Formula (Text Node BinaryOp)
open Tokens

variable {ν : Type}

inductive SyntaxError (ν : Type) where
  /-- `Unexpected character at position` -/
  | character (position : Nat)
  /-- `Expected op` -/
  | expected (op : Text)
  /-- `Unexpected trailing input` -/
  | trailing
  /-- `Unexpected token`; none is the token eof. -/
  | unexpected (token : Option (Token ν))
  deriving DecidableEq

abbrev Parsing (ν α : Type) := Option (Except (SyntaxError ν) α)

/-- A method of `_Parser`, from the tokens at `_index` on to those it leaves. -/
abbrev Method (ν α : Type) := List (Token ν) → Parsing ν (α × List (Token ν))

def andThen {α β : Type} (call : Parsing ν α) (next : α → Parsing ν β) : Parsing ν β :=
  match call with
  | none => none
  | some (.error e) => some (.error e)
  | some (.ok a) => next a

def returns {α : Type} (a : α) : Parsing ν α := some (.ok a)
def raise {α : Type} (e : SyntaxError ν) : Parsing ν α := some (.error e)

/-- `_expect_op` and the `_advance` after it. -/
def expectOp (op : Text) (tokens : List (Token ν)) : Parsing ν (List (Token ν)) :=
  if tokens.head?.bind Token.value = some op then returns tokens.tail else raise (.expected op)

/-- `while` the next token is one of the operators. -/
def operatorLoop (operators : Token ν → Option BinaryOp) (operand : Method ν (Node ν)) :
    Nat → Node ν → Method ν (Node ν)
  | 0, _, _ => none
  | fuel + 1, node, tokens =>
    match tokens.head?.bind operators with
    | none => returns (node, tokens)
    | some op => andThen (operand tokens.tail) fun (right, rest) =>
        operatorLoop operators operand fuel (.binary op node right) rest

def leftAssociative (operators : Token ν → Option BinaryOp) (operand : Method ν (Node ν))
    (fuel : Nat) : Method ν (Node ν) := fun tokens =>
  andThen (operand tokens) fun (node, rest) => operatorLoop operators operand fuel node rest

def argument (expr : Method ν (Node ν)) : Method ν (Node ν)
  | .comma :: rest => returns (.blank, .comma :: rest)
  | tokens => expr tokens

/-- `while True` over the arguments of a call. -/
def argumentLoop (expr : Method ν (Node ν)) : Nat → List (Node ν) → Method ν (List (Node ν))
  | 0, _, _ => none
  | fuel + 1, args, tokens => andThen (argument expr tokens) fun (arg, rest) =>
      match rest with
      | .comma :: .rparen :: rest => returns (args ++ [arg, .blank], .rparen :: rest)
      | .comma :: rest => argumentLoop expr fuel (args ++ [arg]) rest
      | rest => returns (args ++ [arg], rest)

def arguments (expr : Method ν (Node ν)) (fuel : Nat) : Method ν (List (Node ν))
  | .rparen :: rest => returns ([], .rparen :: rest)
  | tokens => argumentLoop expr fuel [] tokens

/-- `_postfix` -/
def postfixed (expr : Method ν (Node ν)) (fuel : Nat) : Method ν (Node ν)
  | .num n :: rest => returns (.num n, rest)
  | .str s :: rest => returns (.str s, rest)
  | .bool b :: rest => returns (.bool b, rest)
  | .ref r :: rest => returns (.ref r, rest)
  | .id name :: rest =>
    if rest.head?.bind Token.value = some ['('] then
      andThen (arguments expr fuel rest.tail) fun (args, rest) =>
        andThen (expectOp [')'] rest) fun rest => returns (.call name args, rest)
    else returns (.ref name, rest)
  | .lparen :: rest => andThen (expr rest) fun (node, rest) =>
      andThen (expectOp [')'] rest) fun rest => returns (node, rest)
  | tokens => raise (.unexpected tokens.head?)

/-- What `_unary` does where there is no sign. -/
def percent (expr : Method ν (Node ν)) (fuel : Nat) : Method ν (Node ν) := fun tokens =>
  andThen (postfixed expr fuel tokens) fun (node, rest) =>
    match rest with
    | .op .percent :: rest => returns (.percent node, rest)
    | rest => returns (node, rest)

def unary (expr : Method ν (Node ν)) (fuel : Nat) : Method ν (Node ν)
  | .op .sub :: rest => andThen (unary expr fuel rest) fun (node, rest) => returns (.neg node, rest)
  | .op .add :: rest => unary expr fuel rest
  | tokens => percent expr fuel tokens

def powers : Token ν → Option BinaryOp
  | .op .pow => some .pow
  | _ => none

def factors : Token ν → Option BinaryOp
  | .op .mul => some .mul
  | .op .div => some .div
  | _ => none

def summands : Token ν → Option BinaryOp
  | .op .add => some .add
  | .op .sub => some .sub
  | _ => none

def concatenations : Token ν → Option BinaryOp
  | .op .concat => some .concat
  | _ => none

def comparisons : Token ν → Option BinaryOp
  | .op .lt => some .lt
  | .op .gt => some .gt
  | .op .le => some .le
  | .op .ge => some .ge
  | .op .eq => some .eq
  | .op .ne => some .ne
  | _ => none

def power (expr : Method ν (Node ν)) (fuel : Nat) : Method ν (Node ν) :=
  leftAssociative powers (unary expr fuel) fuel

def multiplicative (expr : Method ν (Node ν)) (fuel : Nat) : Method ν (Node ν) :=
  leftAssociative factors (power expr fuel) fuel

def additive (expr : Method ν (Node ν)) (fuel : Nat) : Method ν (Node ν) :=
  leftAssociative summands (multiplicative expr fuel) fuel

def concat (expr : Method ν (Node ν)) (fuel : Nat) : Method ν (Node ν) :=
  leftAssociative concatenations (additive expr fuel) fuel

def comparison (expr : Method ν (Node ν)) (fuel : Nat) : Method ν (Node ν) :=
  leftAssociative comparisons (concat expr fuel) fuel

def expr : Nat → Method ν (Node ν)
  | 0, _ => none
  | fuel + 1, tokens => comparison (expr fuel) fuel tokens

def parse (fuel : Nat) (tokens : List (Token ν)) : Parsing ν (Node ν) :=
  andThen (expr fuel tokens) fun (node, rest) =>
    match rest with
    | [] => returns node
    | _ :: _ => raise .trailing

def parseFormula (float : Text → ν) (text : Text) : Parsing ν (Node ν) :=
  match tokenize float text with
  | .error position => raise (.character position)
  | .ok tokens => parse (tokens.length + 1) tokens

/-! ### The grammar -/

inductive Level where
  | comparison | concatenation | additive | multiplicative | power | unary | percent | primary
  deriving DecidableEq

def Level.tighter : Level → Level
  | .comparison => .concatenation
  | .concatenation => .additive
  | .additive => .multiplicative
  | .multiplicative => .power
  | .power => .unary
  | .unary => .percent
  | .percent | .primary => .primary

def Level.operators : Level → Token ν → Option BinaryOp
  | .comparison => comparisons
  | .concatenation => concatenations
  | .additive => summands
  | .multiplicative => factors
  | .power => powers
  | .unary | .percent | .primary => fun _ => none

def separated : List (List (Token ν)) → List (Token ν)
  | [] => []
  | [part] => part
  | part :: next :: parts => part ++ .comma :: separated (next :: parts)

/-- The derivations of the grammar with their trees. Parentheses are the tokens lparen and
rparen. An argument is an expression or omitted, and a call without any comma has one
argument only if there is an expression. -/
inductive Derives : Level → List (Token ν) → Node ν → Prop where
  | tighter {level : Level} {tokens : List (Token ν)} {node : Node ν} :
      Derives level.tighter tokens node → Derives level tokens node
  | binary {level : Level} {left right : List (Token ν)} {x y : Node ν} {tok : Token ν}
      {op : BinaryOp} :
      level.operators tok = some op → Derives level left x → Derives level.tighter right y →
      Derives level (left ++ tok :: right) (.binary op x y)
  | minus {tokens : List (Token ν)} {node : Node ν} :
      Derives .unary tokens node → Derives .unary (.op .sub :: tokens) (.neg node)
  | plus {tokens : List (Token ν)} {node : Node ν} :
      Derives .unary tokens node → Derives .unary (.op .add :: tokens) node
  | percent {tokens : List (Token ν)} {node : Node ν} :
      Derives .primary tokens node → Derives .percent (tokens ++ [.op .percent]) (.percent node)
  | num (n : ν) : Derives .primary [.num n] (.num n)
  | str (s : Text) : Derives .primary [.str s] (.str s)
  | bool (b : Bool) : Derives .primary [.bool b] (.bool b)
  | ref (r : Text) : Derives .primary [.ref r] (.ref r)
  | name (n : Text) : Derives .primary [.id n] (.ref n)
  | group {tokens : List (Token ν)} {node : Node ν} :
      Derives .comparison tokens node → Derives .primary (.lparen :: tokens ++ [.rparen]) node
  | call (n : Text) {args : List (List (Token ν) × Node ν)} :
      args.map Prod.fst ≠ [[]] →
      (∀ arg ∈ args, arg.1 = [] → arg.2 = .blank) →
      (∀ arg ∈ args, arg.1 ≠ [] → Derives .comparison arg.1 arg.2) →
      Derives .primary (.id n :: .lparen :: separated (args.map Prod.fst) ++ [.rparen])
        (.call n (args.map Prod.snd))

/-! ### Fuel -/

@[simp] theorem andThen_returned {α β : Type} {call : Parsing ν α} {next : α → Parsing ν β}
    {b : β} :
    andThen call next = some (.ok b) ↔ ∃ a, call = some (.ok a) ∧ next a = some (.ok b) := by
  match call with
  | none => simp [andThen]
  | some (.error e) => simp [andThen]
  | some (.ok a) => simp [andThen]

@[simp] theorem returns_returned {α : Type} {a b : α} :
    (returns a : Parsing ν α) = some (.ok b) ↔ a = b := by simp [returns]

@[simp] theorem raise_returned {α : Type} {e : SyntaxError ν} {a : α} :
    (raise e : Parsing ν α) ≠ some (.ok a) := by simp [raise]

/-- There was enough fuel, and fewer than `size` tokens are left. -/
def Settles {α : Type} (result : Parsing ν (α × List (Token ν))) (size : Nat) : Prop :=
  match result with
  | none => False
  | some (.error _) => True
  | some (.ok (_, rest)) => rest.length < size

def Total {α : Type} (method : Method ν α) (size : Nat) : Prop :=
  ∀ tokens, tokens.length < size → Settles (method tokens) tokens.length

section Fuel

variable {α β : Type} {m n size fuel : Nat} {method operand : Method ν (Node ν)}

theorem settles_andThen {call : Parsing ν (α × List (Token ν))}
    {next : α × List (Token ν) → Parsing ν (β × List (Token ν))} (settled : Settles call m)
    (then_ : ∀ a rest, rest.length < m → Settles (next (a, rest)) n) :
    Settles (andThen call next) n := by
  match call, settled with
  | some (.error e), _ => trivial
  | some (.ok (a, rest)), shorter => exact then_ a rest shorter

theorem Settles.mono {result : Parsing ν (α × List (Token ν))} (settled : Settles result m)
    (le : m ≤ n) : Settles result n := by
  match result, settled with
  | some (.error e), _ => trivial
  | some (.ok (a, rest)), shorter => exact Nat.lt_of_lt_of_le shorter le

theorem settles_expectOp {op : Text} {tokens : List (Token ν)} {a : α} (le : tokens.length ≤ n)
    (positive : 0 < n) :
    Settles (andThen (expectOp op tokens) fun rest => returns (a, rest)) n := by
  unfold expectOp
  split
  · show tokens.tail.length < n
    rw [List.length_tail]
    omega
  · trivial

theorem operatorLoop_settles (operators : Token ν → Option BinaryOp) (total : Total operand size)
    {node : Node ν} {tokens : List (Token ν)} (fits : tokens.length < fuel)
    (le : tokens.length ≤ size) :
    Settles (operatorLoop operators operand fuel node tokens) (tokens.length + 1) := by
  induction fuel generalizing node tokens with
  | zero => omega
  | succ fuel ih =>
    unfold operatorLoop
    split
    · exact Nat.lt_succ_self _
    · rename_i op found
      cases tokens with
      | nil => cases found
      | cons tok tokens =>
        simp only [List.length_cons] at fits le
        refine settles_andThen (total tokens (by omega)) fun right rest shorter => ?_
        exact (ih (by omega) (by omega)).mono (by simp only [List.length_cons]; omega)

theorem leftAssociative_total (operators : Token ν → Option BinaryOp)
    (total : Total operand (fuel + 1)) :
    Total (leftAssociative operators operand fuel) (fuel + 1) := by
  intro tokens fits
  refine settles_andThen (total tokens fits) fun node rest shorter => ?_
  exact (operatorLoop_settles operators total (by omega) (by omega)).mono shorter

theorem argument_settles (total : Total method size) {tokens : List (Token ν)}
    (fits : tokens.length < size) :
    Settles (argument method tokens) (tokens.length + 1) := by
  unfold argument
  split
  · exact Nat.lt_succ_self _
  · exact (total tokens fits).mono (Nat.le_succ _)

theorem argumentLoop_settles (total : Total method size) {args : List (Node ν)}
    {tokens : List (Token ν)} (fits : tokens.length < fuel) (le : tokens.length < size) :
    Settles (argumentLoop method fuel args tokens) (tokens.length + 1) := by
  induction fuel generalizing args tokens with
  | zero => omega
  | succ fuel ih =>
    unfold argumentLoop
    refine settles_andThen (argument_settles total le) fun arg rest shorter => ?_
    dsimp only
    split
    · rename_i rest
      simp only [List.length_cons] at shorter
      show (Token.rparen :: rest).length < _
      simp only [List.length_cons]
      omega
    · rename_i rest _
      simp only [List.length_cons] at shorter
      exact (ih (by omega) (by omega)).mono (by omega)
    · exact shorter

theorem arguments_settles (total : Total method fuel) {tokens : List (Token ν)}
    (fits : tokens.length < fuel) :
    Settles (arguments method fuel tokens) (tokens.length + 1) := by
  unfold arguments
  split
  · exact Nat.lt_succ_self _
  · exact argumentLoop_settles total fits fits

theorem postfixed_total (total : Total method fuel) :
    Total (postfixed method fuel) (fuel + 1) := by
  intro tokens fits
  unfold postfixed
  split
  all_goals try exact Nat.lt_succ_self _
  · rename_i name rest
    simp only [List.length_cons] at fits ⊢
    split
    · have tail : rest.tail.length ≤ rest.length := by
        rw [List.length_tail]
        omega
      refine settles_andThen (arguments_settles total (by omega)) fun args rest shorter => ?_
      exact settles_expectOp (by dsimp only; omega) (by omega)
    · exact Nat.lt_succ_self _
  · rename_i rest
    simp only [List.length_cons] at fits ⊢
    refine settles_andThen (total rest (by omega)) fun node rest shorter => ?_
    exact settles_expectOp (by dsimp only; omega) (by omega)
  · trivial

theorem percent_total (total : Total method fuel) : Total (percent method fuel) (fuel + 1) := by
  intro tokens fits
  refine settles_andThen (postfixed_total total tokens fits) fun node rest shorter => ?_
  dsimp only
  split
  · exact Nat.lt_of_succ_lt shorter
  · exact shorter

theorem unary_total (total : Total method fuel) : Total (unary method fuel) (fuel + 1) := by
  intro tokens fits
  induction tokens with
  | nil => exact percent_total total [] fits
  | cons tok tokens ih =>
    have settled := ih (Nat.lt_of_succ_lt fits)
    unfold unary
    split
    · rename_i rest matched
      cases matched
      exact settles_andThen settled fun node rest shorter => Nat.lt_succ_of_lt shorter
    · rename_i rest matched
      cases matched
      exact settled.mono (Nat.le_succ _)
    · exact percent_total total _ fits

theorem expr_total : Total (expr fuel : Method ν (Node ν)) fuel := by
  induction fuel with
  | zero => exact fun tokens fits => absurd fits (Nat.not_lt_zero _)
  | succ fuel ih =>
    have total := leftAssociative_total powers (unary_total ih)
    have total := leftAssociative_total summands (leftAssociative_total factors total)
    exact leftAssociative_total comparisons (leftAssociative_total concatenations total)

theorem parse_returns {tokens : List (Token ν)} (fits : tokens.length < fuel) :
    ∃ result, parse fuel tokens = some result := by
  have settled := expr_total tokens fits
  unfold parse
  match expr fuel tokens, settled with
  | some (.error e), _ => exact ⟨_, rfl⟩
  | some (.ok (node, [])), _ => exact ⟨_, rfl⟩
  | some (.ok (node, _ :: _)), _ => exact ⟨_, rfl⟩

theorem parseFormula_returns (float : Text → ν) (text : Text) :
    ∃ result, parseFormula float text = some result := by
  unfold parseFormula
  split
  · exact ⟨_, rfl⟩
  · exact parse_returns (Nat.lt_succ_self _)

end Fuel

end Plexichat.Sum.Parser
