import Plexichat.Sum.Parser

/-! `_Parser` compares the value of a token with a parenthesis, not its kind: which tokens stand
for parentheses so, and that what the parser returns is derived from the tokens with their
parentheses. -/
namespace Plexichat.Sum.Parser

open Formula (Text Node BinaryOp)
open Tokens

variable {ν : Type}

inductive Place where
  | start | name | behind
  deriving DecidableEq

def leaves : Token ν → Place
  | .id _ => .name
  | .num _ | .str _ | .bool _ | .ref _ | .rparen | .op .percent => .behind
  | .op _ | .lparen | .comma => .start

def asDelimiter (place : Place) (tok : Token ν) : Token ν :=
  if place = .name ∧ tok.value = some ['('] then .lparen
  else if place ≠ .start ∧ tok.value = some [')'] then .rparen
  else tok

/-- The tokens with each of them that has the value of a parenthesis, where one may stand,
replaced by it. -/
def delimited : Place → List (Token ν) → List (Token ν)
  | _, [] => []
  | place, tok :: rest =>
    asDelimiter place tok :: delimited (leaves (asDelimiter place tok)) rest

def placeAfter (place : Place) (tokens : List (Token ν)) : Place :=
  tokens.foldl (fun _ tok => leaves tok) place

@[simp] theorem placeAfter_nil (place : Place) : placeAfter place ([] : List (Token ν)) = place :=
  rfl

@[simp] theorem placeAfter_cons (place : Place) (tok : Token ν) (rest : List (Token ν)) :
    placeAfter place (tok :: rest) = placeAfter (leaves tok) rest := rfl

@[simp] theorem placeAfter_append (place : Place) (left right : List (Token ν)) :
    placeAfter place (left ++ right) = placeAfter (placeAfter place left) right :=
  List.foldl_append

@[simp] theorem asDelimiter_start (tok : Token ν) : asDelimiter .start tok = tok := by
  simp [asDelimiter]

@[simp] theorem asDelimiter_op (place : Place) (o : Op) :
    asDelimiter place (.op o : Token ν) = .op o := by
  cases o <;> simp [asDelimiter, Token.value, Op.text]

@[simp] theorem asDelimiter_comma (place : Place) :
    asDelimiter place (.comma : Token ν) = .comma := by
  simp [asDelimiter, Token.value]

@[simp] theorem asDelimiter_rparen (place : Place) :
    asDelimiter place (.rparen : Token ν) = .rparen := by
  simp [asDelimiter, Token.value]

theorem asDelimiter_name {tok : Token ν} (value : tok.value = some ['(']) :
    asDelimiter .name tok = .lparen := by simp [asDelimiter, value]

theorem asDelimiter_close {place : Place} {tok : Token ν} (value : tok.value = some [')'])
    (closes : place ≠ .start ∨ tok = .rparen) : asDelimiter place tok = .rparen := by
  obtain closes | rfl := closes
  · simp [asDelimiter, value, closes]
  · exact asDelimiter_rparen place

@[simp] theorem delimited_nil (place : Place) : delimited place ([] : List (Token ν)) = [] := rfl

theorem delimited_cons (place : Place) (tok : Token ν) (rest : List (Token ν)) :
    delimited place (tok :: rest) =
      asDelimiter place tok :: delimited (leaves (asDelimiter place tok)) rest := rfl

theorem delimited_append (place : Place) (left right : List (Token ν)) :
    delimited place (left ++ right) =
      delimited place left ++ delimited (placeAfter place (delimited place left)) right := by
  induction left generalizing place with
  | nil => rfl
  | cons tok left ih => simp [delimited_cons, ih]

@[simp] theorem delimited_comma (place : Place) (rest : List (Token ν)) :
    delimited place (.comma :: rest) = .comma :: delimited .start rest := by
  simp [delimited_cons, leaves]

theorem operators_op {level : Level} {tok : Token ν} {op : BinaryOp}
    (found : level.operators tok = some op) : ∃ o, tok = .op o ∧ o ≠ .percent := by
  match tok with
  | .op o =>
    refine ⟨o, rfl, fun same => ?_⟩
    subst same
    cases level <;> cases found
  | .num _ | .str _ | .bool _ | .ref _ | .id _ | .lparen | .rparen | .comma =>
    cases level <;> cases found

theorem leaves_operator {level : Level} {tok : Token ν} {op : BinaryOp}
    (found : level.operators tok = some op) : leaves tok = .start := by
  obtain ⟨o, rfl, other⟩ := operators_op found
  cases o with
  | percent => exact absurd rfl other
  | _ => rfl

theorem delimited_operator {level : Level} {tok : Token ν} {op : BinaryOp}
    (found : level.operators tok = some op) (place : Place) (rest : List (Token ν)) :
    delimited place (tok :: rest) = tok :: delimited .start rest := by
  obtain ⟨o, rfl, _⟩ := operators_op found
  rw [delimited_cons, asDelimiter_op, leaves_operator found]

/-! ### The methods -/

theorem Derives.leaves {level : Level} {tokens : List (Token ν)} {node : Node ν}
    (derived : Derives level tokens node) (place : Place) : placeAfter place tokens ≠ .start := by
  induction derived generalizing place with
  | tighter _ ih => exact ih place
  | binary _ _ _ _ ih =>
    rw [placeAfter_append, placeAfter_cons]
    exact ih _
  | minus _ ih => exact ih _
  | plus _ ih => exact ih _
  | percent | group | call => simp [Parser.leaves]
  | num | str | bool | ref | name => simp [Parser.leaves]

theorem Derives.ne_nil {level : Level} {tokens : List (Token ν)} {node : Node ν}
    (derived : Derives level tokens node) : tokens ≠ [] := by
  intro empty
  exact derived.leaves .start (by rw [empty]; rfl)

/-- What the method reads up to the end of a node is derived, with the parentheses that the
parser sees. -/
def Reads (level : Level) (method : Method ν (Node ν)) : Prop :=
  ∀ tokens node rest, method tokens = some (.ok (node, rest)) →
    ∃ read, tokens = read ++ rest ∧ Derives level (delimited .start read) node

section Reads

variable {fuel : Nat} {operand method : Method ν (Node ν)}

theorem operatorLoop_reads (level : Level) (reads : Reads level.tighter operand)
    {before tokens rest : List (Token ν)} {node result : Node ν}
    (derived : Derives level (delimited .start before) node)
    (returned : operatorLoop level.operators operand fuel node tokens = some (.ok (result, rest))) :
    ∃ read, tokens = read ++ rest ∧ Derives level (delimited .start (before ++ read)) result := by
  induction fuel generalizing before node tokens with
  | zero => cases returned
  | succ fuel ih =>
    unfold operatorLoop at returned
    split at returned
    · obtain ⟨rfl, rfl⟩ := Prod.mk.injEq .. ▸ returns_returned.mp returned
      exact ⟨[], rfl, by rwa [List.append_nil]⟩
    · rename_i op found
      cases tokens with
      | nil => cases found
      | cons tok tokens =>
        have found : level.operators tok = some op := found
        obtain ⟨⟨right, after⟩, called, followed⟩ := andThen_returned.mp returned
        obtain ⟨read, rfl, second⟩ := reads _ _ _ called
        have both :
            Derives level (delimited .start (before ++ tok :: read)) (.binary op node right) := by
          rw [delimited_append, delimited_operator found]
          exact .binary found derived second
        obtain ⟨more, rfl, derived⟩ := ih both followed
        exact ⟨tok :: read ++ more, by simp, by simpa using derived⟩

theorem leftAssociative_reads (level : Level) (fuel : Nat) (reads : Reads level.tighter operand) :
    Reads level (leftAssociative level.operators operand fuel) := by
  intro tokens node rest returned
  obtain ⟨⟨first, after⟩, called, followed⟩ := andThen_returned.mp returned
  obtain ⟨read, rfl, derived⟩ := reads _ _ _ called
  obtain ⟨more, rfl, derived⟩ := operatorLoop_reads level reads (.tighter derived) followed
  exact ⟨read ++ more, by simp, derived⟩

theorem expectOp_returned {op : Text} {tokens rest : List (Token ν)}
    (returned : expectOp op tokens = some (.ok rest)) :
    ∃ tok, tokens = tok :: rest ∧ tok.value = some op := by
  unfold expectOp at returned
  split at returned
  · rename_i value
    cases tokens with
    | nil => cases value
    | cons tok tokens =>
      obtain rfl := returns_returned.mp returned
      exact ⟨tok, rfl, value⟩
  · exact absurd returned raise_returned

theorem argument_reads (reads : Reads .comparison method) {tokens rest : List (Token ν)}
    {arg : Node ν} (returned : argument method tokens = some (.ok (arg, rest))) :
    ∃ read, tokens = read ++ rest ∧
      (read = [] ∧ arg = .blank ∧ rest.head? = some .comma ∨
        Derives .comparison (delimited .start read) arg) := by
  unfold argument at returned
  split at returned
  · obtain ⟨rfl, rfl⟩ := Prod.mk.injEq .. ▸ returns_returned.mp returned
    exact ⟨[], rfl, .inl ⟨rfl, rfl, rfl⟩⟩
  · obtain ⟨read, rfl, derived⟩ := reads _ _ _ returned
    exact ⟨read, rfl, .inr derived⟩

theorem separated_cons {part : List (Token ν)} {parts : List (List (Token ν))} (more : parts ≠ []) :
    separated (part :: parts) = part ++ .comma :: separated parts := by
  cases parts with
  | nil => exact absurd rfl more
  | cons next parts => rfl

/-- Arguments with the tokens of each, as `Derives.call` asks for them. -/
structure Arguments (args : List (List (Token ν) × Node ν)) : Prop where
  several : args.map Prod.fst ≠ [[]]
  omitted : ∀ arg ∈ args, arg.1 = [] → arg.2 = .blank
  derived : ∀ arg ∈ args, arg.1 ≠ [] → Derives .comparison arg.1 arg.2

theorem arguments_nil : Arguments ([] : List (List (Token ν) × Node ν)) where
  several := by simp
  omitted := by simp
  derived := by simp

theorem arguments_cons {part : List (Token ν)} {arg : Node ν}
    {args : List (List (Token ν) × Node ν)}
    (first : part = [] ∧ arg = .blank ∧ args ≠ [] ∨ Derives .comparison part arg)
    (omitted : ∀ arg ∈ args, arg.1 = [] → arg.2 = .blank)
    (derived : ∀ arg ∈ args, arg.1 ≠ [] → Derives .comparison arg.1 arg.2) :
    Arguments ((part, arg) :: args) where
  several := by
    intro single
    rw [List.map_cons, List.cons.injEq, List.map_eq_nil_iff] at single
    obtain ⟨_, _, more⟩ | first := first
    · exact more single.2
    · exact first.ne_nil single.1
  omitted := by
    rw [List.forall_mem_cons]
    refine ⟨fun empty => ?_, omitted⟩
    obtain ⟨_, rfl, _⟩ | first := first
    · rfl
    · exact absurd empty first.ne_nil
  derived := by
    rw [List.forall_mem_cons]
    refine ⟨fun nonempty => ?_, derived⟩
    obtain ⟨empty, _⟩ | first := first
    · exact absurd empty nonempty
    · exact first

def Closes (part rest : List (Token ν)) : Prop :=
  placeAfter .start part ≠ .start ∨ rest.head? = some .rparen

theorem argumentLoop_reads (reads : Reads .comparison method) {before all : List (Node ν)}
    {tokens rest : List (Token ν)}
    (returned : argumentLoop method fuel before tokens = some (.ok (all, rest))) :
    ∃ read args, tokens = read ++ rest ∧ all = before ++ args.map Prod.snd ∧ args ≠ [] ∧
      delimited .start read = separated (args.map Prod.fst) ∧ Arguments args ∧
      Closes (delimited .start read) rest := by
  induction fuel generalizing before tokens with
  | zero => cases returned
  | succ fuel ih =>
    obtain ⟨⟨arg, after⟩, called, followed⟩ := andThen_returned.mp returned
    obtain ⟨read, rfl, first⟩ := argument_reads reads called
    dsimp only at followed
    split at followed
    · rename_i after
      obtain ⟨rfl, rfl⟩ := Prod.mk.injEq .. ▸ returns_returned.mp followed
      refine ⟨read ++ [.comma], [(delimited .start read, arg), ([], .blank)], by simp, rfl,
        List.cons_ne_nil _ _, ?_, ?_, .inr rfl⟩
      · rw [delimited_append, delimited_comma]
        rfl
      · refine arguments_cons ?_ (by simp) (by simp)
        exact first.imp_left fun h => ⟨by rw [h.1]; rfl, h.2.1, List.cons_ne_nil _ _⟩
    · rename_i after _
      obtain ⟨more, args, rfl, rfl, nonempty, same, parsed, closes⟩ := ih followed
      refine ⟨read ++ .comma :: more, (delimited .start read, arg) :: args, by simp, by simp,
        List.cons_ne_nil _ _, ?_, ?_, ?_⟩
      · rw [delimited_append, delimited_comma, same, List.map_cons, separated_cons (by simpa)]
      · refine arguments_cons ?_ parsed.omitted parsed.derived
        exact first.imp_left fun h => ⟨by rw [h.1]; rfl, h.2.1, nonempty⟩
      · unfold Closes
        rw [delimited_append, delimited_comma, placeAfter_append]
        exact closes
    · rename_i after _ other
      obtain ⟨rfl, rfl⟩ := Prod.mk.injEq .. ▸ returns_returned.mp followed
      have derived : Derives .comparison (delimited .start read) arg := by
        obtain ⟨_, _, comma⟩ | derived := first
        · obtain ⟨tail, rfl⟩ := List.head?_eq_some_iff.mp comma
          exact absurd rfl (other tail)
        · exact derived
      exact ⟨read, [(delimited .start read, arg)], rfl, rfl, List.cons_ne_nil _ _, rfl,
        arguments_cons (.inr derived) (by simp) (by simp), .inl (derived.leaves _)⟩

theorem arguments_reads (reads : Reads .comparison method) {all : List (Node ν)}
    {tokens rest : List (Token ν)}
    (returned : arguments method fuel tokens = some (.ok (all, rest))) :
    ∃ read args, tokens = read ++ rest ∧ all = args.map Prod.snd ∧
      delimited .start read = separated (args.map Prod.fst) ∧ Arguments args ∧
      Closes (delimited .start read) rest := by
  unfold arguments at returned
  split at returned
  · obtain ⟨rfl, rfl⟩ := Prod.mk.injEq .. ▸ returns_returned.mp returned
    exact ⟨[], [], rfl, rfl, rfl, arguments_nil, .inr rfl⟩
  · obtain ⟨read, args, split, all, _, same, parsed, closes⟩ := argumentLoop_reads reads returned
    exact ⟨read, args, split, all, same, parsed, closes⟩

theorem postfixed_reads (reads : Reads .comparison method) :
    Reads .primary (postfixed method fuel) := by
  intro tokens node rest returned
  unfold postfixed at returned
  split at returned
  · obtain ⟨rfl, rfl⟩ := Prod.mk.injEq .. ▸ returns_returned.mp returned
    exact ⟨[_], rfl, .num _⟩
  · obtain ⟨rfl, rfl⟩ := Prod.mk.injEq .. ▸ returns_returned.mp returned
    refine ⟨[_], rfl, ?_⟩
    rw [delimited_cons, asDelimiter_start]
    exact .str _
  · obtain ⟨rfl, rfl⟩ := Prod.mk.injEq .. ▸ returns_returned.mp returned
    exact ⟨[_], rfl, .bool _⟩
  · obtain ⟨rfl, rfl⟩ := Prod.mk.injEq .. ▸ returns_returned.mp returned
    refine ⟨[_], rfl, ?_⟩
    rw [delimited_cons, asDelimiter_start]
    exact .ref _
  · rename_i name tokens
    split at returned
    · rename_i value
      obtain ⟨⟨all, after⟩, called, followed⟩ := andThen_returned.mp returned
      obtain ⟨last, closed, followed⟩ := andThen_returned.mp followed
      obtain ⟨rfl, rfl⟩ := Prod.mk.injEq .. ▸ returns_returned.mp followed
      obtain ⟨close, rfl, closing⟩ := expectOp_returned closed
      obtain ⟨read, args, split, rfl, same, parsed, closes⟩ := arguments_reads reads called
      cases tokens with
      | nil => cases value
      | cons tok tokens =>
        have split : tokens = read ++ close :: last := split
        refine ⟨.id name :: tok :: read ++ [close], by simp [split], ?_⟩
        have opened : asDelimiter .name tok = .lparen := asDelimiter_name value
        have shut : asDelimiter (placeAfter .start (delimited .start read)) close = .rparen :=
          asDelimiter_close closing (closes.imp_right fun h => Option.some.inj h)
        have seen : delimited .start (.id name :: tok :: read ++ [close]) =
            .id name :: .lparen :: separated (args.map Prod.fst) ++ [.rparen] := by
          rw [List.cons_append, List.cons_append, delimited_cons, asDelimiter_start]
          show _ :: delimited .name _ = _
          rw [delimited_cons, opened]
          show _ :: _ :: delimited .start _ = _
          rw [delimited_append, delimited_cons, shut, same]
          rfl
        rw [seen]
        exact .call name parsed.several parsed.omitted parsed.derived
    · obtain ⟨rfl, rfl⟩ := Prod.mk.injEq .. ▸ returns_returned.mp returned
      refine ⟨[_], rfl, ?_⟩
      rw [delimited_cons, asDelimiter_start]
      exact .name _
  · rename_i tokens
    obtain ⟨⟨inner, after⟩, called, followed⟩ := andThen_returned.mp returned
    obtain ⟨last, closed, followed⟩ := andThen_returned.mp followed
    obtain ⟨rfl, rfl⟩ := Prod.mk.injEq .. ▸ returns_returned.mp followed
    obtain ⟨close, rfl, closing⟩ := expectOp_returned closed
    obtain ⟨read, rfl, derived⟩ := reads _ _ _ called
    refine ⟨.lparen :: read ++ [close], by simp, ?_⟩
    have seen : delimited .start (.lparen :: read ++ [close]) =
        .lparen :: delimited .start read ++ [.rparen] := by
      rw [List.cons_append, delimited_cons, asDelimiter_start]
      show _ :: delimited .start _ = _
      rw [delimited_append, delimited_cons,
        asDelimiter_close closing (.inl (derived.leaves _))]
      rfl
    rw [seen]
    exact .group derived
  · exact absurd returned raise_returned

theorem percent_reads (reads : Reads .comparison method) :
    Reads .percent (percent method fuel) := by
  intro tokens node rest returned
  obtain ⟨⟨inner, after⟩, called, followed⟩ := andThen_returned.mp returned
  obtain ⟨read, rfl, derived⟩ := postfixed_reads reads _ _ _ called
  dsimp only at followed
  split at followed
  · obtain ⟨rfl, rfl⟩ := Prod.mk.injEq .. ▸ returns_returned.mp followed
    refine ⟨read ++ [.op .percent], by simp, ?_⟩
    rw [delimited_append, delimited_cons, asDelimiter_op]
    exact .percent derived
  · obtain ⟨rfl, rfl⟩ := Prod.mk.injEq .. ▸ returns_returned.mp followed
    exact ⟨read, rfl, .tighter derived⟩

theorem unary_reads (reads : Reads .comparison method) : Reads .unary (unary method fuel) := by
  intro tokens
  induction tokens with
  | nil =>
    intro node rest returned
    obtain ⟨read, split, derived⟩ := percent_reads reads _ _ _ returned
    exact ⟨read, split, .tighter derived⟩
  | cons tok tokens ih =>
    intro node rest returned
    unfold unary at returned
    split at returned
    · rename_i tail matched
      cases matched
      obtain ⟨⟨inner, after⟩, called, followed⟩ := andThen_returned.mp returned
      obtain ⟨rfl, rfl⟩ := Prod.mk.injEq .. ▸ returns_returned.mp followed
      obtain ⟨read, rfl, derived⟩ := ih _ _ called
      refine ⟨.op .sub :: read, rfl, ?_⟩
      rw [delimited_cons, asDelimiter_op]
      exact .minus derived
    · rename_i tail matched
      cases matched
      obtain ⟨read, rfl, derived⟩ := ih _ _ returned
      refine ⟨.op .add :: read, rfl, ?_⟩
      rw [delimited_cons, asDelimiter_op]
      exact .plus derived
    · obtain ⟨read, split, derived⟩ := percent_reads reads _ _ _ returned
      exact ⟨read, split, .tighter derived⟩

theorem expr_reads : Reads .comparison (expr fuel : Method ν (Node ν)) := by
  induction fuel with
  | zero =>
    intro tokens node rest returned
    cases returned
  | succ fuel ih =>
    have reads : Reads .unary (unary (expr fuel : Method ν (Node ν)) fuel) := unary_reads ih
    have reads := leftAssociative_reads .power fuel reads
    have reads := leftAssociative_reads .multiplicative fuel reads
    have reads := leftAssociative_reads .additive fuel reads
    have reads := leftAssociative_reads .concatenation fuel reads
    exact leftAssociative_reads .comparison fuel reads

theorem parse_derives {tokens : List (Token ν)} {node : Node ν}
    (returned : parse fuel tokens = some (.ok node)) :
    Derives .comparison (delimited .start tokens) node := by
  obtain ⟨⟨inner, after⟩, called, followed⟩ := andThen_returned.mp returned
  obtain ⟨read, rfl, derived⟩ := expr_reads _ _ _ called
  dsimp only at followed
  split at followed
  · obtain rfl := returns_returned.mp followed
    rwa [List.append_nil]
  · exact absurd followed raise_returned

end Reads

end Plexichat.Sum.Parser
