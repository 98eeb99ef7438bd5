import Mathlib.Data.Int.Notation
import Plexichat.Library.Query

/-! suite/sum/_formula_core.py: the evaluator of formulas. A formula is a computation that
reads cells; `evaluate_cell` answers each reading from its memo, from the stored value or by
evaluating the formula of the cell one level further down. Numbers are a parameter, and so
are the parser, the operators on values and the functions that only combine their operands. -/
namespace Plexichat.Sum.Formula
open Memo

abbrev Text := List Char

def CYCLE_ERROR : Text := ['#', 'C', 'Y', 'C', 'L', 'E', '!']
def VALUE_ERROR : Text := ['#', 'V', 'A', 'L', 'U', 'E', '!']
def REF_ERROR : Text := ['#', 'R', 'E', 'F', '!']
def NUM_ERROR : Text := ['#', 'N', 'U', 'M', '!']
def DIV_ZERO : Text := ['#', 'D', 'I', 'V', '/', '0', '!']
def NAME_ERROR : Text := ['#', 'N', 'A', 'M', 'E', '?']
def N_A_ERROR : Text := ['#', 'N', '/', 'A']

def ERROR_CODES : List Text :=
  [DIV_ZERO, VALUE_ERROR, REF_ERROR, NAME_ERROR, NUM_ERROR, CYCLE_ERROR, N_A_ERROR]

def MAX_DEPENDENCIES : Nat := 200000
def MAX_CALL_DEPTH : Nat := 100

/-- What a cell or an expression evaluates to; an error is its text. -/
inductive Value (ν : Type) where
  | blank
  | number (n : ν)
  | text (s : Text)
  | logical (b : Bool)
  | list (items : List (Value ν))

def Value.isError {ν : Type} : Value ν → Bool
  | .text s => ERROR_CODES.contains s
  | _ => false

inductive BinaryOp where
  | eq | ne | lt | gt | le | ge
  | add | sub | mul | div | pow | concat
  deriving DecidableEq

/-- The trees of `parse_formula`; the operators of `cmp` nodes are among the binary ones. -/
inductive Node (ν : Type) where
  | num (n : ν)
  | str (s : Text)
  | bool (b : Bool)
  | blank
  | ref (text : Text)
  | neg (operand : Node ν)
  | percent (operand : Node ν)
  | binary (op : BinaryOp) (left right : Node ν)
  | call (name : Text) (args : List (Node ν))

/-- The Python exceptions a formula can raise; the message of a ValueError is kept. -/
inductive Failure where
  | value (message : Text)
  | zeroDivision
  | overflow

structure Address where
  sheet : Option Text
  row : Int
  column : Int
  deriving DecidableEq

/-- `_resolve` of a reference, `_resolve` in the loops of `_range_values` and of
`_range_matrix`, and in the block of OFFSET. -/
inductive Through where
  | reference | rangeValues | rangeMatrix | block
  deriving DecidableEq

structure Request where
  cell : Address
  through : Through
  deriving DecidableEq

abbrev Answer (ν : Type) := Except Failure (Value ν)

abbrev Program (ν : Type) := ExceptT Failure (Query Request (Answer ν))

variable {ν : Type}

def read (through : Through) (cell : Address) : Program ν (Value ν) :=
  ExceptT.mk (.ask ⟨cell, through⟩ .done)

/-- The pure parts of the engine. `functions` stands for the functions of `_call_impl` that
have no definition here; such a function gets each argument with its evaluation. -/
structure Engine (ν : Type) where
  parseFormula : Text → Except Text (Node ν)
  parseCellRef : Text → Except Text (Option Text × Int × Int)
  apply : BinaryOp → Value ν → Value ν → Answer ν
  negate : Value ν → Answer ν
  percent : Value ν → Answer ν
  truthy : Value ν → Bool
  functions : Text → Option Text → List (Node ν × Program ν (Value ν)) → Program ν (Value ν)

def span (a b : Int) : List Int :=
  (List.range (max a b - min a b + 1).toNat).map fun i : Nat => min a b + (i : Int)

/-- `s or sheet` -/
def orSheet (s sheet : Option Text) : Option Text :=
  match s with
  | none | some [] => sheet
  | some name => some name

def splitRange (text : Text) : Option (Text × Text) :=
  match text.span (· ≠ ':') with
  | (_, []) => none
  | (first, _ :: second) => some (first, second)

namespace Engine
variable (e : Engine ν)

def reference (text : Text) : Program ν (Option Text × Int × Int) :=
  match e.parseCellRef text with
  | .ok place => pure place
  | .error message => throw (.value message)

def rangeValues (sheet : Option Text) (row1 col1 row2 col2 : Int) :
    Program ν (List (Value ν)) :=
  ((span row1 row2).flatMap fun r => (span col1 col2).map fun c => ⟨sheet, r, c⟩).mapM
    (read .rangeValues)

/-- `_range_matrix` of a `ref` node. -/
def rangeMatrix (sheet : Option Text) (text : Text) : Program ν (Value ν) := do
  let (first, second) := (splitRange text).getD (text, text)
  let (s1, r1, c1) ← e.reference first
  let (_, r2, c2) ← e.reference second
  let rows ← (span r1 r2).mapM fun r => do
    let row ← (span c1 c2).mapM fun c => read .rangeMatrix ⟨orSheet s1 sheet, r, c⟩
    pure (Value.list row)
  pure (.list rows)

def expandArg (sheet : Option Text) (arg : Node ν × Program ν (Value ν)) :
    Program ν (List (Value ν) × Bool) :=
  match arg.1 with
  | .blank => pure ([.blank], false)
  | .ref text =>
    match splitRange text with
    | some (first, second) => do
      let (s1, r1, c1) ← e.reference first
      let (_, r2, c2) ← e.reference second
      let values ← rangeValues (orSheet s1 sheet) r1 c1 r2 c2
      pure (values, true)
    | none => do
      let value ← arg.2
      pure ([value], true)
  | _ => do
    match ← arg.2 with
    | .list items =>
      pure (items.flatMap fun | .list row => row | item => [item], true)
    | value => pure ([value], false)

/-- The error or the single value of a slot. -/
def scalarSlot (sheet : Option Text) (arg : Node ν × Program ν (Value ν)) :
    Program ν (Except (Value ν) (Value ν)) := do
  let (values, _) ← e.expandArg sheet arg
  match values.find? Value.isError, values with
  | some error, _ => pure (.error error)
  | none, [value] => pure (.ok value)
  | none, _ => pure (.error (.text VALUE_ERROR))

def scalarOr (sheet : Option Text) (arg : Node ν × Program ν (Value ν)) :
    Program ν (Value ν) := do
  match ← e.scalarSlot sheet arg with
  | .error value | .ok value => pure value

def IF : Text := ['I', 'F']
def AND : Text := ['A', 'N', 'D']
def OR : Text := ['O', 'R']
def NOT : Text := ['N', 'O', 'T']
def IFERROR : Text := ['I', 'F', 'E', 'R', 'R', 'O', 'R']
def IFNA : Text := ['I', 'F', 'N', 'A']

def callIf (sheet : Option Text) (test yes : Node ν × Program ν (Value ν))
    (no : Option (Node ν × Program ν (Value ν))) : Program ν (Value ν) := do
  let condition ← e.scalarOr sheet test
  if condition.isError then pure condition
  else if e.truthy condition then e.scalarOr sheet yes
  else match no with
    | some branch => e.scalarOr sheet branch
    | none => pure (.logical false)

def callJunction (all : Bool) (sheet : Option Text)
    (args : List (Node ν × Program ν (Value ν))) : Program ν (Value ν) := do
  let expanded ← args.mapM (e.expandArg sheet)
  let evaluated := expanded.flatMap Prod.fst
  match evaluated.find? Value.isError with
  | some error => pure error
  | none =>
    pure (.logical (if all then evaluated.all e.truthy else evaluated.any e.truthy))

def isRange : Node ν → Bool
  | .ref text => (splitRange text).isSome
  | _ => false

/-- `_argument_error` with `defer_references` false. -/
def argumentError : List (Node ν × Program ν (Value ν)) → Program ν (Option (Value ν))
  | [] => pure none
  | arg :: args => do
    if isRange arg.1 then argumentError args
    else
      let value ← arg.2
      if value.isError then pure (some value) else argumentError args

def callNot (sheet : Option Text) (arg : Node ν × Program ν (Value ν)) :
    Program ν (Value ν) := do
  match ← argumentError [arg] with
  | some error => pure error
  | none =>
    let value ← e.scalarOr sheet arg
    pure (if value.isError then value else .logical (!e.truthy value))

def callIfError (onlyNA : Bool) (sheet : Option Text)
    (arg fallback : Node ν × Program ν (Value ν)) : Program ν (Value ν) := do
  match ← e.scalarSlot sheet arg with
  | .ok value => pure value
  | .error (.text code) =>
    if onlyNA && code ≠ N_A_ERROR then pure (.text code) else e.scalarOr sheet fallback
  | .error _ => e.scalarOr sheet fallback

def callImpl (name : Text) (sheet : Option Text) (args : List (Node ν × Program ν (Value ν))) :
    Program ν (Value ν) :=
  if name = IF then
    match args with
    | [test, yes] => e.callIf sheet test yes none
    | [test, yes, no] => e.callIf sheet test yes (some no)
    | _ => pure (.text VALUE_ERROR)
  else if name = AND ∨ name = OR then
    match args with
    | [] => pure (.text VALUE_ERROR)
    | _ => e.callJunction (name = AND) sheet args
  else if name = NOT then
    match args with
    | [arg] => e.callNot sheet arg
    | _ => pure (.text VALUE_ERROR)
  else if name = IFERROR ∨ name = IFNA then
    match args with
    | [arg, fallback] => e.callIfError (name = IFNA) sheet arg fallback
    | _ => pure (.text VALUE_ERROR)
  else e.functions name sheet args

def errorText (message : Text) : Text :=
  if ERROR_CODES.contains message then message else VALUE_ERROR

def call (name : Text) (sheet : Option Text) (args : List (Node ν × Program ν (Value ν))) :
    Program ν (Value ν) :=
  tryCatch (e.callImpl name sheet args) fun
    | .zeroDivision => pure (.text DIV_ZERO)
    | .overflow => pure (.text NUM_ERROR)
    | .value message => pure (.text (errorText message))

/-- `_eval` of a `ref` node -/
def evalRef (sheet : Option Text) (text : Text) : Program ν (Value ν) :=
  match splitRange text with
  | some (first, second) =>
    match e.parseCellRef first, e.parseCellRef second with
    | .ok (s1, r1, c1), .ok (_, r2, c2) => do
      let values ← rangeValues (orSheet s1 sheet) r1 c1 r2 c2
      match values.find? Value.isError, values with
      | some error, _ => pure error
      | none, [value] => pure value
      | none, _ => pure (.text VALUE_ERROR)
    | _, _ => pure (.text REF_ERROR)
  | none =>
    match e.parseCellRef text with
    | .ok (s, r, c) => read .reference ⟨orSheet s sheet, r, c⟩
    | .error _ => pure (.text REF_ERROR)

def operand (sheet : Option Text) (node : Node ν) (evaluated : Program ν (Value ν)) :
    Program ν (Value ν) :=
  match node with
  | .ref text => if isRange node then e.rangeMatrix sheet text else evaluated
  | _ => evaluated

mutual

def eval (sheet : Option Text) : Node ν → Program ν (Value ν)
  | .num n => pure (.number n)
  | .str s => pure (.text s)
  | .bool b => pure (.logical b)
  | .blank => pure .blank
  | .ref text => e.evalRef sheet text
  | .neg node => do
    let value ← eval sheet node
    if value.isError then pure value else ExceptT.mk (pure (e.negate value))
  | .percent node => do
    let value ← eval sheet node
    if value.isError then pure value else ExceptT.mk (pure (e.percent value))
  | .binary op left right => do
    let l ← e.operand sheet left (eval sheet left)
    if l.isError then pure l
    else
      let r ← e.operand sheet right (eval sheet right)
      ExceptT.mk (pure (e.apply op l r))
  | .call name args => e.call name sheet (evalArgs sheet args)

def evalArgs (sheet : Option Text) : List (Node ν) → List (Node ν × Program ν (Value ν))
  | [] => []
  | arg :: args => (arg, eval sheet arg) :: evalArgs sheet args

end

/-- What `evaluate_cell` runs for one formula text. -/
def program (sheet : Option Text) (formula : Text) : Program ν (Value ν) :=
  match e.parseFormula formula with
  | .error message => throw (.value message)
  | .ok node => e.operand sheet node (e.eval sheet node)

end Engine

/-- The dict of the resolver: its `formula` and its `value`. -/
structure Stored (ν : Type) where
  formula : Text
  value : Value ν

structure Key where
  cell : Address
  formula : Text
  deriving DecidableEq

structure Sheets (ν : Type) where
  engine : Engine ν
  resolver : Address → Option (Stored ν)

namespace Sheets
variable (w : Sheets ν)

def program (k : Key) : Query Request (Answer ν) (Answer ν) :=
  (w.engine.program k.cell.sheet k.formula).run

/-- What a formula comes to once `evaluate_cell` has caught its ValueError. -/
def caught : Answer ν → Answer ν
  | .error (.value message) => .ok (.text (Engine.errorText message))
  | result => result

def found (cell : Address) : Option (Value ν ⊕ Key) :=
  (w.resolver cell).map fun stored =>
    if stored.formula = [] then .inl stored.value else .inr ⟨cell, stored.formula⟩

end Sheets

/-- Values for `n` levels and for the level before, each from the two below it. -/
def descend {α : Type} (step : α → α → α) (cut : α) : Nat → α × α
  | 0 => (cut, cut)
  | n + 1 => (step (descend step cut n).1 (descend step cut n).2, (descend step cut n).1)

theorem descend_before {α : Type} (step : α → α → α) (cut : α) (n : Nat) :
    (descend step cut n).2 = (descend step cut (n - 1)).1 := by
  cases n with
  | zero => rfl
  | succ n => rfl

/-- `_used` and `_computed` -/
structure Evaluator (ν : Type) where
  used : Nat
  computed : Key → Option (Value ν)

namespace Evaluator

def fresh : Evaluator ν := ⟨0, Memo.empty⟩

def count (s : Evaluator ν) : Evaluator ν := { s with used := s.used + 1 }

@[simp] theorem count_used (s : Evaluator ν) : s.count.used = s.used + 1 := rfl

def remember (s : Evaluator ν) (k : Key) (v : Value ν) : Evaluator ν :=
  { s with computed := store s.computed k (some v) }

end Evaluator

namespace Sheets
variable (w : Sheets ν) (dependencies : Nat)

/-- A call of `evaluate_cell` on one level: none is a _DependencyBudgetExceeded. -/
abbrev Level (ν : Type) := Key → Evaluator ν → Option (Answer ν) × Evaluator ν

def resolve (below : Level ν) (cell : Address) (s : Evaluator ν) :
    Option (Answer ν) × Evaluator ν :=
  match w.found cell with
  | none => (some (.ok .blank), s)
  | some content =>
    if dependencies < s.count.used then (none, s.count)
    else match content with
      | .inl value => (some (.ok value), s.count)
      | .inr k => below k s.count

/-- `next` is the level below, `after` the one below that, which ranges reach. -/
def answer (next after : Level ν) (q : Request) (s : Evaluator ν) :
    Option (Answer ν) × Evaluator ν :=
  match q.through with
  | .reference => w.resolve dependencies next q.cell s
  | .block => w.resolve dependencies after q.cell s
  | .rangeValues =>
    if dependencies < s.count.used then (none, s.count)
    else w.resolve dependencies after q.cell s.count
  | .rangeMatrix =>
    if dependencies < s.count.used then (some (.error (.value NUM_ERROR)), s.count)
    else w.resolve dependencies after q.cell s.count

/-- The end of `evaluate_cell`: a value is remembered, an exceeded budget is caught. -/
def settle (k : Key) : Option (Answer ν) × Evaluator ν → Option (Answer ν) × Evaluator ν
  | (none, s) => (some (.ok (.text NUM_ERROR)), s)
  | (some (.ok value), s) => (some (.ok value), s.remember k value)
  | (some raised, s) => (some (caught raised), s)

def evaluateStep (next after : List Key → Level ν) (seen : List Key) : Level ν := fun k s =>
  if k ∈ seen then (some (.ok (.text CYCLE_ERROR)), s)
  else match s.computed k with
    | some value => (some (.ok value), s)
    | none =>
      if dependencies < s.count.used then (none, s.count)
      else settle k ((w.program k).serve
        (w.answer dependencies (next (k :: seen)) (after (k :: seen))) s.count)

/-- `evaluate_cell` with `n` levels left, which is at depth MAX_CALL_DEPTH + 1 - n. -/
def evaluateCell (n : Nat) : List Key → Level ν :=
  (descend (w.evaluateStep dependencies) (fun _ _ s => (some (.ok (.text CYCLE_ERROR)), s)) n).1

/-- How the readings of a formula are answered whose evaluation has `n` levels below it. -/
def answerAt (n : Nat) (seen : List Key) : Request → Evaluator ν → Option (Answer ν) × Evaluator ν :=
  w.answer dependencies (w.evaluateCell dependencies n seen) (w.evaluateCell dependencies (n - 1) seen)

theorem evaluateCell_succ (n : Nat) (seen : List Key) (k : Key) (s : Evaluator ν) :
    w.evaluateCell dependencies (n + 1) seen k s =
      if k ∈ seen then (some (.ok (.text CYCLE_ERROR)), s)
      else match s.computed k with
        | some value => (some (.ok value), s)
        | none =>
          if dependencies < s.count.used then (none, s.count)
          else settle k ((w.program k).serve (w.answerAt dependencies n (k :: seen)) s.count) := by
  unfold answerAt evaluateCell
  rw [← descend_before]
  rfl

def evaluateRoot (k : Key) (s : Evaluator ν) : Option (Answer ν) × Evaluator ν :=
  w.evaluateCell dependencies (MAX_CALL_DEPTH + 1) [] k { s with used := 0 }

def evaluateCells : List Key → Evaluator ν → List (Option (Answer ν)) × Evaluator ν
  | [], s => ([], s)
  | k :: ks, s =>
    let (a, t) := w.evaluateRoot dependencies k s
    let (rest, u) := evaluateCells ks t
    (a :: rest, u)

end Sheets

end Plexichat.Sum.Formula
