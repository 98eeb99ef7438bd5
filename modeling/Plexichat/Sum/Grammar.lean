import Plexichat.Sum.Delimiters

/-! The parser returns the tree of each derivation from the tokens with their parentheses, and
so it follows the grammar where no other token stands for a parenthesis. -/
namespace Plexichat.Sum.Parser

open Formula (Text Node BinaryOp)
open Tokens

variable {ν : Type}

theorem delimited_eq_cons {place : Place} {tokens rest : List (Token ν)} {seen : Token ν}
    (same : delimited place tokens = seen :: rest) :
    ∃ tok after, tokens = tok :: after ∧ asDelimiter place tok = seen ∧
      delimited (leaves seen) after = rest := by
  cases tokens with
  | nil => cases same
  | cons tok after =>
    rw [delimited_cons, List.cons.injEq] at same
    obtain ⟨rfl, same⟩ := same
    exact ⟨tok, after, rfl, rfl, same⟩

theorem delimited_eq_append {place : Place} {tokens left right : List (Token ν)}
    (same : delimited place tokens = left ++ right) :
    ∃ before after, tokens = before ++ after ∧ delimited place before = left ∧
      delimited (placeAfter place left) after = right := by
  induction left generalizing place tokens with
  | nil => exact ⟨[], tokens, rfl, rfl, same⟩
  | cons seen left ih =>
    obtain ⟨tok, rest, rfl, rfl, same⟩ := delimited_eq_cons same
    obtain ⟨before, after, rfl, rfl, same⟩ := ih same
    exact ⟨tok :: before, after, rfl, rfl, same⟩

theorem asDelimiter_eq {place : Place} {tok seen : Token ν} (same : asDelimiter place tok = seen) :
    tok = seen ∨ place = .name ∧ tok.value = some ['('] ∧ seen = .lparen ∨
      place ≠ .start ∧ tok.value = some [')'] ∧ seen = .rparen := by
  unfold asDelimiter at same
  split at same
  · rename_i opens
    exact .inr (.inl ⟨opens.1, opens.2, same.symm⟩)
  split at same
  · rename_i closes
    exact .inr (.inr ⟨closes.1, closes.2, same.symm⟩)
  · exact .inl same

theorem asDelimiter_eq_op {place : Place} {tok : Token ν} {o : Op}
    (same : asDelimiter place tok = .op o) : tok = .op o := by
  obtain same | ⟨_, _, other⟩ | ⟨_, _, other⟩ := asDelimiter_eq same
  · exact same
  · cases other
  · cases other

theorem asDelimiter_eq_comma {place : Place} {tok : Token ν}
    (same : asDelimiter place tok = .comma) : tok = .comma := by
  obtain same | ⟨_, _, other⟩ | ⟨_, _, other⟩ := asDelimiter_eq same
  · exact same
  · cases other
  · cases other

theorem asDelimiter_eq_lparen {place : Place} {tok : Token ν}
    (same : asDelimiter place tok = .lparen) : tok.value = some ['('] := by
  obtain rfl | ⟨_, value, _⟩ | ⟨_, _, other⟩ := asDelimiter_eq same
  · rfl
  · exact value
  · cases other

theorem asDelimiter_eq_rparen {place : Place} {tok : Token ν}
    (same : asDelimiter place tok = .rparen) :
    tok.value = some [')'] ∧ (place ≠ .start ∨ tok = .rparen) := by
  obtain rfl | ⟨_, _, other⟩ | ⟨behind, value, _⟩ := asDelimiter_eq same
  · exact ⟨rfl, .inr rfl⟩
  · cases other
  · exact ⟨value, .inl behind⟩

def starts : Token ν → Bool
  | .num _ | .str _ | .bool _ | .ref _ | .id _ | .lparen => true
  | .op _ | .rparen | .comma => false

def sign : Token ν → Bool
  | .op .add | .op .sub => true
  | _ => false

theorem Derives.begins {level : Level} {tokens : List (Token ν)} {node : Node ν}
    (derived : Derives level tokens node) :
    ∃ tok rest, tokens = tok :: rest ∧
      (starts tok ∨ sign tok ∧ level ≠ .percent ∧ level ≠ .primary) := by
  induction derived with
  | @tighter level _ _ _ ih =>
    obtain ⟨tok, rest, rfl, begins⟩ := ih
    refine ⟨tok, rest, rfl, begins.imp_right fun h => ⟨h.1, ?_⟩⟩
    cases level <;> simp [Level.tighter] at h ⊢
  | @binary level left right x y op tok found _ _ ih _ =>
    obtain ⟨first, rest, rfl, begins⟩ := ih
    exact ⟨first, rest ++ op :: right, rfl, begins⟩
  | minus => exact ⟨_, _, rfl, .inr ⟨rfl, by decide, by decide⟩⟩
  | plus => exact ⟨_, _, rfl, .inr ⟨rfl, by decide, by decide⟩⟩
  | percent _ ih =>
    obtain ⟨tok, rest, rfl, begins⟩ := ih
    obtain begins | ⟨_, _, other⟩ := begins
    · exact ⟨tok, rest ++ [.op .percent], rfl, .inl begins⟩
    · exact absurd rfl other
  | num | str | bool | ref | name | group | call => exact ⟨_, _, rfl, .inl rfl⟩

def Level.rank : Level → Nat
  | .comparison => 0
  | .concatenation => 1
  | .additive => 2
  | .multiplicative => 3
  | .power => 4
  | .unary => 5
  | .percent => 6
  | .primary => 7

def opRank : Op → Nat
  | .lt | .gt | .le | .ge | .eq | .ne => 0
  | .concat => 1
  | .add | .sub => 2
  | .mul | .div => 3
  | .pow => 4
  | .percent => 6

theorem operators_rank {level : Level} {o : Op} {op : BinaryOp}
    (found : level.operators (.op o : Token ν) = some op) : opRank o = level.rank := by
  cases level <;> cases o <;> first | rfl | cases found

/-- The tokens that do not go on with an operand of a level, except for the operators of the
level itself. -/
structure MayFollow (level : Level) (rest : List (Token ν)) : Prop where
  noCall : rest.head?.bind Token.value ≠ some ['(']
  looser : ∀ other : Level, level.rank < other.rank → rest.head?.bind other.operators = none
  noPercent : level ≠ .primary → rest.head? ≠ some (.op .percent)

theorem MayFollow.tighter {level : Level} {rest : List (Token ν)} (follows : MayFollow level rest) :
    MayFollow level.tighter rest where
  noCall := follows.noCall
  looser other looser := by
    refine follows.looser other (Nat.lt_of_le_of_lt ?_ looser)
    cases level <;> decide
  noPercent other := by
    refine follows.noPercent fun same => ?_
    subst same
    exact other rfl

theorem MayFollow.stops {level : Level} {rest : List (Token ν)} (follows : MayFollow level rest) :
    rest.head?.bind level.tighter.operators = none := by
  by_cases last : level.rank < level.tighter.rank
  · exact follows.looser _ last
  · cases level with
    | primary => cases rest <;> rfl
    | _ => exact absurd (by decide) last

theorem mayFollow_nil (level : Level) : MayFollow level ([] : List (Token ν)) where
  noCall := by simp
  looser := by simp
  noPercent := by simp

theorem mayFollow_operator {level : Level} {tok : Token ν} {op : BinaryOp}
    (found : level.operators tok = some op) (rest : List (Token ν)) :
    MayFollow level (tok :: rest) := by
  obtain ⟨o, rfl, notPercent⟩ := operators_op found
  refine ⟨?_, fun other looser => ?_, fun _ same => ?_⟩
  · cases o <;> simp [Token.value, Op.text]
  · cases again : other.operators (.op o : Token ν) with
    | none => exact again
    | some op => rw [← operators_rank found, ← operators_rank again] at looser; omega
  · exact notPercent (Token.op.inj (Option.some.inj same))

def Ends (rest : List (Token ν)) : Prop :=
  ∃ tok after, rest = tok :: after ∧ (tok = .comma ∨ tok.value = some [')'])

theorem Ends.mayFollow {rest : List (Token ν)} (ends : Ends rest) (level : Level) :
    MayFollow level rest ∧ rest.head?.bind level.operators = none := by
  obtain ⟨tok, after, rfl, ends⟩ := ends
  have value : tok.value = some [','] ∨ tok.value = some [')'] :=
    ends.imp_left fun comma => by rw [comma]; rfl
  have none_ : ∀ other : Level, other.operators tok = none := by
    intro other
    cases found : other.operators tok with
    | none => rfl
    | some op =>
      obtain ⟨o, rfl, _⟩ := operators_op found
      cases o <;> simp [Token.value, Op.text] at value
  refine ⟨⟨?_, fun other _ => none_ other, fun _ same => ?_⟩, none_ level⟩
  · obtain value | value := value <;> simp [value]
  · cases Option.some.inj same
    simp [Token.value, Op.text] at value

def Level.method (fuel : Nat) : Level → Method ν (Node ν)
  | .comparison => Parser.comparison (expr fuel) fuel
  | .concatenation => concat (expr fuel) fuel
  | .additive => Parser.additive (expr fuel) fuel
  | .multiplicative => Parser.multiplicative (expr fuel) fuel
  | .power => Parser.power (expr fuel) fuel
  | .unary => Parser.unary (expr fuel) fuel
  | .percent => Parser.percent (expr fuel) fuel
  | .primary => postfixed (expr fuel) fuel

/-- Unless the fuel runs out, the result is `a`. -/
def Gives {α : Type} (result : Parsing ν α) (a : α) : Prop := result = none ∨ result = returns a

theorem Gives.andThen {α β : Type} {call : Parsing ν α} {next : α → Parsing ν β} {a : α} {b : β}
    (first : Gives call a) (second : Gives (next a) b) : Gives (andThen call next) b := by
  obtain rfl | rfl := first
  · exact .inl rfl
  · exact second

/-- The loop of a level is reached at `rest` with the node read so far. Where the level has no
operators that is the result. -/
def Reaches (fuel : Nat) (level : Level) (tokens : List (Token ν)) (node : Node ν)
    (rest : List (Token ν)) : Prop :=
  ∃ left, level.method fuel tokens =
    operatorLoop level.operators (level.tighter.method fuel) left node rest

theorem operatorLoop_stops {operators : Token ν → Option BinaryOp} {operand : Method ν (Node ν)}
    {left : Nat} {node : Node ν} {rest : List (Token ν)}
    (stops : rest.head?.bind operators = none) :
    Gives (operatorLoop operators operand left node rest) (node, rest) := by
  cases left with
  | zero => exact .inl rfl
  | succ left =>
    refine .inr ?_
    rw [operatorLoop, stops]

theorem Reaches.gives {fuel : Nat} {level : Level} {tokens rest : List (Token ν)} {node : Node ν}
    (reaches : Reaches fuel level tokens node rest)
    (stops : rest.head?.bind level.operators = none) :
    Gives (level.method fuel tokens) (node, rest) := by
  obtain ⟨left, reached⟩ := reaches
  rw [reached]
  exact operatorLoop_stops stops

/-- A level without operators has reached its loop when it has its result. -/
theorem Gives.reaches {fuel : Nat} {level : Level} {tokens rest : List (Token ν)} {node : Node ν}
    (none_ : ∀ tok : Token ν, level.operators tok = none)
    (gives : Gives (level.method fuel tokens) (node, rest)) :
    Reaches fuel level tokens node rest := by
  obtain gives | gives := gives
  · exact ⟨0, gives⟩
  · refine ⟨1, ?_⟩
    have stops : rest.head?.bind level.operators = none := by
      cases rest with
      | nil => rfl
      | cons tok rest => exact none_ tok
    rw [gives, operatorLoop, stops]

/-- The levels that associate to the left. -/
theorem method_chain {level : Level} (chain : level.rank < 5) (fuel : Nat)
    (tokens : List (Token ν)) :
    level.method fuel tokens = andThen (level.tighter.method fuel tokens) fun (node, rest) =>
      operatorLoop level.operators (level.tighter.method fuel) fuel node rest := by
  cases level with
  | comparison | concatenation | additive | multiplicative | power => rfl
  | unary | percent | primary => exact absurd chain (by decide)

theorem reaches_chain {fuel : Nat} {level : Level} (chain : level.rank < 5)
    {tokens rest : List (Token ν)} {node : Node ν}
    (gives : Gives (level.tighter.method fuel tokens) (node, rest)) :
    Reaches fuel level tokens node rest := by
  obtain gives | gives := gives
  · exact ⟨0, by rw [method_chain chain, gives]; rfl⟩
  · exact ⟨fuel, by rw [method_chain chain, gives]; rfl⟩

theorem unary_unsigned {method : Method ν (Node ν)} {fuel : Nat} {tok : Token ν}
    (begins : starts tok) (tokens : List (Token ν)) :
    unary method fuel (tok :: tokens) = percent method fuel (tok :: tokens) := by
  unfold unary
  split
  · rename_i matched
    cases matched
    cases begins
  · rename_i matched
    cases matched
    cases begins
  · rfl

theorem percent_stops {fuel : Nat} {tokens rest : List (Token ν)} {node : Node ν}
    (gives : Gives (Level.primary.method fuel tokens) (node, rest))
    (stops : rest.head? ≠ some (.op .percent)) :
    Gives (Level.percent.method fuel tokens) (node, rest) := by
  refine gives.andThen (.inr ?_)
  dsimp only
  split
  · exact absurd rfl stops
  · rfl

theorem reaches_tighter {fuel : Nat} {level : Level} {tokens rest : List (Token ν)} {node : Node ν}
    {tok : Token ν} {after : List (Token ν)} (split : tokens = tok :: after)
    (begins : level = .unary → starts tok) (follows : MayFollow level rest)
    (reaches : Reaches fuel level.tighter tokens node rest) :
    Reaches fuel level tokens node rest := by
  have gives := reaches.gives follows.stops
  cases level with
  | comparison | concatenation | additive | multiplicative | power =>
    exact reaches_chain (by decide) gives
  | unary =>
    refine Gives.reaches (fun _ => rfl) ?_
    subst split
    show Gives (unary _ _ _) _
    rw [unary_unsigned (begins rfl)]
    exact gives
  | percent => exact (percent_stops gives (follows.noPercent (by decide))).reaches fun _ => rfl
  | primary => exact reaches

theorem reaches_binary {fuel : Nat} {level : Level} {tok : Token ν} {op : BinaryOp}
    {tokens after rest : List (Token ν)} {x y : Node ν} (found : level.operators tok = some op)
    (left : Reaches fuel level tokens x (tok :: after))
    (right : Gives (level.tighter.method fuel after) (y, rest)) :
    Reaches fuel level tokens (.binary op x y) rest := by
  obtain ⟨n, reached⟩ := left
  cases n with
  | zero => exact ⟨0, reached⟩
  | succ n =>
    have next : (tok :: after).head?.bind level.operators = some op := found
    rw [operatorLoop, next] at reached
    have reached : level.method fuel tokens =
        andThen (level.tighter.method fuel after) fun (right, rest) =>
          operatorLoop level.operators (level.tighter.method fuel) n (.binary op x right) rest :=
      reached
    obtain none_ | given := right
    · exact ⟨0, by rw [reached, none_]; rfl⟩
    · exact ⟨n, by rw [reached, given]; rfl⟩

theorem expectOp_gives {tok : Token ν} {op : Text} (value : tok.value = some op)
    (rest : List (Token ν)) : Gives (expectOp op (tok :: rest)) rest := by
  refine .inr ?_
  unfold expectOp
  rw [if_pos (by exact value)]
  rfl

def Completed (seen : List (Token ν)) (level : Level) (node : Node ν) : Prop :=
  ∀ fuel tokens rest, delimited .start tokens = seen → MayFollow level rest →
    Reaches fuel level (tokens ++ rest) node rest

theorem Completed.expr {seen tokens rest : List (Token ν)} {node : Node ν}
    (completed : Completed seen .comparison node) (same : delimited .start tokens = seen)
    (follows : MayFollow .comparison rest ∧
      rest.head?.bind Level.comparison.operators = none) (fuel : Nat) :
    Gives (expr fuel (tokens ++ rest)) (node, rest) := by
  cases fuel with
  | zero => exact .inl rfl
  | succ fuel => exact (completed fuel tokens rest same follows.1).gives follows.2

theorem head_of_derived {seen tokens : List (Token ν)} {node : Node ν}
    (derived : Derives .comparison seen node) (same : delimited .start tokens = seen) :
    ∃ tok after, tokens = tok :: after ∧ tok ≠ .comma ∧ tok ≠ .rparen := by
  obtain ⟨first, rest, rfl, begins⟩ := derived.begins
  obtain ⟨tok, after, rfl, rfl, _⟩ := delimited_eq_cons same
  rw [asDelimiter_start] at begins
  refine ⟨tok, after, rfl, ?_, ?_⟩
  · rintro rfl
    simp [starts, sign] at begins
  · rintro rfl
    simp [starts, sign] at begins

theorem argument_gives {part tokens rest : List (Token ν)} {arg : Node ν}
    (first : part = [] ∧ arg = .blank ∧ rest.head? = some .comma ∨
      Derives .comparison part arg ∧ Completed part .comparison arg)
    (same : delimited .start tokens = part) (ends : Ends rest) (fuel : Nat) :
    Gives (argument (expr fuel) (tokens ++ rest)) (arg, rest) := by
  obtain ⟨rfl, rfl, comma⟩ | ⟨derived, completed⟩ := first
  · obtain ⟨after, rfl⟩ := List.head?_eq_some_iff.mp comma
    cases tokens with
    | nil => exact .inr rfl
    | cons tok tokens => cases same
  · obtain ⟨tok, after, rfl, notComma, _⟩ := head_of_derived derived same
    have gives := completed.expr same (ends.mayFollow .comparison) fuel
    unfold argument
    split
    · rename_i matched
      exact absurd (List.cons.inj matched).1 notComma
    · exact gives

theorem Arguments.head {args : List (List (Token ν) × Node ν)} (parsed : Arguments args)
    (nonempty : args ≠ []) {tokens : List (Token ν)}
    (same : delimited .start tokens = separated (args.map Prod.fst)) :
    ∃ tok after, tokens = tok :: after ∧ tok ≠ .rparen := by
  cases args with
  | nil => exact absurd rfl nonempty
  | cons first args =>
    obtain ⟨part, node⟩ := first
    by_cases empty : part = []
    · subst empty
      have more : args.map Prod.fst ≠ [] :=
        fun none_ => parsed.several (by rw [List.map_cons, none_])
      rw [List.map_cons, separated_cons more] at same
      obtain ⟨tok, after, rfl, comma, _⟩ := delimited_eq_cons same
      obtain rfl := asDelimiter_eq_comma comma
      refine ⟨.comma, after, rfl, fun other => ?_⟩
      cases other
    · have derived := parsed.derived _ List.mem_cons_self empty
      by_cases more : args.map Prod.fst = []
      · rw [List.map_cons, more] at same
        obtain ⟨tok, after, rfl, _, other⟩ := head_of_derived derived same
        exact ⟨tok, after, rfl, other⟩
      · rw [List.map_cons, separated_cons more] at same
        obtain ⟨before, after, rfl, same, _⟩ := delimited_eq_append same
        obtain ⟨tok, rest, rfl, _, other⟩ := head_of_derived derived same
        exact ⟨tok, rest ++ after, rfl, other⟩

section ArgumentLoop

variable {fuel inner : Nat} {before : List (Node ν)} {node : Node ν}
  {tokens after rest : List (Token ν)}

theorem argumentLoop_last {close : Token ν}
    (first : Gives (argument (expr inner) tokens) (node, close :: after))
    (value : close.value = some [')']) :
    Gives (argumentLoop (expr inner) fuel before tokens) (before ++ [node], close :: after) := by
  cases fuel with
  | zero => exact .inl rfl
  | succ fuel =>
    refine first.andThen (.inr ?_)
    dsimp only
    split
    · rename_i matched
      rw [(List.cons.inj matched).1] at value
      cases value
    · rename_i matched
      rw [(List.cons.inj matched).1] at value
      cases value
    · rfl

theorem argumentLoop_trailing
    (first : Gives (argument (expr inner) tokens) (node, .comma :: .rparen :: after)) :
    Gives (argumentLoop (expr inner) fuel before tokens)
      (before ++ [node, .blank], .rparen :: after) := by
  cases fuel with
  | zero => exact .inl rfl
  | succ fuel => exact first.andThen (.inr rfl)

theorem argumentLoop_next {result : List (Node ν) × List (Token ν)}
    (first : Gives (argument (expr inner) tokens) (node, .comma :: rest))
    (notClose : rest.head? ≠ some .rparen)
    (later : ∀ fuel, Gives (argumentLoop (expr inner) fuel (before ++ [node]) rest) result) :
    Gives (argumentLoop (expr inner) fuel before tokens) result := by
  cases fuel with
  | zero => exact .inl rfl
  | succ fuel =>
    refine first.andThen ?_
    dsimp only
    split
    · rename_i matched
      exact absurd (congrArg List.head? (List.cons.inj matched).2) notClose
    · rename_i matched
      obtain rfl := (List.cons.inj matched).2
      exact later fuel
    · rename_i other
      exact absurd rfl (other rest)

theorem Arguments.tail {first : List (Token ν) × Node ν} {args : List (List (Token ν) × Node ν)}
    (parsed : Arguments (first :: args)) (several : args.map Prod.fst ≠ [[]]) : Arguments args where
  several := several
  omitted arg mem := parsed.omitted arg (List.mem_cons_of_mem _ mem)
  derived arg mem := parsed.derived arg (List.mem_cons_of_mem _ mem)

theorem argumentLoop_gives {args : List (List (Token ν) × Node ν)} (parsed : Arguments args)
    (nonempty : args ≠ [])
    (completed : ∀ arg ∈ args, arg.1 ≠ [] → Completed arg.1 .comparison arg.2)
    {close : Token ν} (before : List (Node ν))
    (same : delimited .start tokens = separated (args.map Prod.fst))
    (value : close.value = some [')'])
    (closes : placeAfter .start (separated (args.map Prod.fst)) ≠ .start ∨ close = .rparen)
    (fuel inner : Nat) :
    Gives (argumentLoop (expr inner) fuel before (tokens ++ close :: after))
      (before ++ args.map Prod.snd, close :: after) := by
  induction args generalizing fuel before tokens with
  | nil => exact absurd rfl nonempty
  | cons first args ih =>
    obtain ⟨part, node⟩ := first
    have part_cases : part = [] ∧ node = .blank ∨
        Derives .comparison part node ∧ Completed part .comparison node := by
      by_cases empty : part = []
      · exact .inl ⟨empty, parsed.omitted _ List.mem_cons_self empty⟩
      · exact .inr ⟨parsed.derived _ List.mem_cons_self empty,
          completed _ List.mem_cons_self empty⟩
    cases args with
    | nil =>
      have derived : Derives .comparison part node ∧ Completed part .comparison node := by
        obtain ⟨rfl, _⟩ | derived := part_cases
        · exact absurd rfl parsed.several
        · exact derived
      have ends : Ends (close :: after) := ⟨close, after, rfl, .inr value⟩
      exact argumentLoop_last (argument_gives (.inr derived) same ends inner) value
    | cons next args =>
      have more : (next :: args).map Prod.fst ≠ [] := List.cons_ne_nil _ _
      rw [List.map_cons, separated_cons more] at same closes
      obtain ⟨read, later, rfl, partSeen, following⟩ := delimited_eq_append same
      obtain ⟨tok, later, rfl, comma, others⟩ := delimited_eq_cons following
      obtain rfl := asDelimiter_eq_comma comma
      rw [placeAfter_append, placeAfter_cons] at closes
      have ends : Ends (.comma :: (later ++ close :: after)) := ⟨_, _, rfl, .inl rfl⟩
      have first := argument_gives (part_cases.imp_left fun h => ⟨h.1, h.2, rfl⟩) partSeen ends
        inner
      rw [List.append_assoc]
      by_cases single : (next :: args).map Prod.fst = [[]]
      · -- nothing but the closing parenthesis follows the comma: one more blank
        rw [List.map_cons, List.cons.injEq, List.map_eq_nil_iff] at single
        obtain ⟨empty, rfl⟩ := single
        obtain ⟨nextPart, nextNode⟩ := next
        obtain rfl : nextPart = [] := empty
        obtain rfl : nextNode = .blank :=
          parsed.omitted _ (List.mem_cons_of_mem _ List.mem_cons_self) rfl
        obtain rfl : later = [] := by
          cases later with
          | nil => rfl
          | cons tok later => cases others
        obtain rfl : close = .rparen := by
          obtain behind | shut := closes
          · exact absurd rfl behind
          · exact shut
        exact argumentLoop_trailing first
      · have parsed := parsed.tail single
        obtain ⟨tok, rest, rfl, notClose⟩ := parsed.head (List.cons_ne_nil _ _) others
        refine argumentLoop_next first (fun shut => notClose (Option.some.inj shut)) fun fuel => ?_
        have gives := ih parsed (List.cons_ne_nil _ _)
          (fun arg mem => completed arg (List.mem_cons_of_mem _ mem)) (before ++ [node])
          others closes fuel
        simpa using gives

end ArgumentLoop

theorem arguments_gives {args : List (List (Token ν) × Node ν)} (parsed : Arguments args)
    (completed : ∀ arg ∈ args, arg.1 ≠ [] → Completed arg.1 .comparison arg.2)
    {tokens after : List (Token ν)} {close : Token ν}
    (same : delimited .start tokens = separated (args.map Prod.fst))
    (value : close.value = some [')'])
    (closes : placeAfter .start (separated (args.map Prod.fst)) ≠ .start ∨ close = .rparen)
    (fuel inner : Nat) :
    Gives (arguments (expr inner) fuel (tokens ++ close :: after))
      (args.map Prod.snd, close :: after) := by
  cases args with
  | nil =>
    have nothing : tokens = [] := by
      cases tokens with
      | nil => rfl
      | cons tok tokens => cases same
    have shut : close = .rparen := by
      obtain behind | shut := closes
      · exact absurd rfl behind
      · exact shut
    subst nothing shut
    exact .inr rfl
  | cons first args =>
    have nonempty : first :: args ≠ [] := List.cons_ne_nil _ _
    obtain ⟨tok, rest, rfl, notClose⟩ := parsed.head nonempty same
    have gives : Gives (argumentLoop (expr inner) fuel [] (tok :: rest ++ close :: after)) _ :=
      argumentLoop_gives parsed nonempty completed [] same value closes fuel inner
    unfold arguments
    split
    · rename_i matched
      exact absurd (List.cons.inj matched).1 notClose
    · exact gives

theorem postfixed_id (method : Method ν (Node ν)) (fuel : Nat) (name : Text)
    (rest : List (Token ν)) :
    postfixed method fuel (.id name :: rest) =
      if rest.head?.bind Token.value = some ['('] then
        andThen (arguments method fuel rest.tail) fun (args, rest) =>
          andThen (expectOp [')'] rest) fun rest => returns (.call name args, rest)
      else returns (.ref name, rest) := rfl

theorem postfixed_gives {tok : Token ν} {node : Node ν} {seen : List (Token ν)}
    (single : seen = [tok])
    (reads : ∀ fuel rest, MayFollow .primary rest →
      postfixed (expr fuel) fuel (tok :: rest) = returns (node, rest)) :
    Completed seen .primary node := by
  intro fuel tokens rest same follows
  subst single
  obtain ⟨first, after, rfl, unchanged, nothing⟩ := delimited_eq_cons same
  rw [asDelimiter_start] at unchanged
  cases after with
  | nil =>
    subst unchanged
    exact Gives.reaches (fun _ => rfl) (.inr (reads fuel rest follows))
  | cons next after => cases nothing

theorem group_completed {seen : List (Token ν)} {node : Node ν}
    (completed : Completed seen .comparison node) :
    Completed (.lparen :: seen ++ [.rparen]) .primary node := by
  intro fuel tokens rest same follows
  obtain ⟨opening, tokens, rfl, unchanged, behind⟩ := delimited_eq_cons same
  rw [asDelimiter_start] at unchanged
  subst unchanged
  obtain ⟨inside, after, rfl, insideSeen, closing⟩ := delimited_eq_append behind
  obtain ⟨close, after, rfl, closes, nothing⟩ := delimited_eq_cons closing
  obtain ⟨value, _⟩ := asDelimiter_eq_rparen closes
  cases after with
  | cons next after => cases nothing
  | nil =>
    refine Gives.reaches (fun _ => rfl) ?_
    have ends : Ends (close :: rest) := ⟨close, rest, rfl, .inr value⟩
    have inner := completed.expr insideSeen (ends.mayFollow .comparison) fuel
    rw [List.cons_append, List.append_assoc]
    exact inner.andThen ((expectOp_gives value rest).andThen (.inr rfl))

theorem call_completed (n : Text) {args : List (List (Token ν) × Node ν)} (parsed : Arguments args)
    (completed : ∀ arg ∈ args, arg.1 ≠ [] → Completed arg.1 .comparison arg.2) :
    Completed (.id n :: .lparen :: separated (args.map Prod.fst) ++ [.rparen]) .primary
      (.call n (args.map Prod.snd)) := by
  intro fuel tokens rest same follows
  obtain ⟨name, tokens, rfl, unchanged, behind⟩ := delimited_eq_cons same
  rw [asDelimiter_start] at unchanged
  subst unchanged
  obtain ⟨opening, tokens, rfl, opens, within⟩ := delimited_eq_cons behind
  obtain ⟨inside, after, rfl, insideSeen, closing⟩ := delimited_eq_append within
  obtain ⟨close, after, rfl, closes, nothing⟩ := delimited_eq_cons closing
  obtain ⟨value, closes⟩ := asDelimiter_eq_rparen closes
  cases after with
  | cons next after => cases nothing
  | nil =>
    refine Gives.reaches (fun _ => rfl) ?_
    have given : Gives (arguments (expr fuel) fuel (inside ++ close :: rest)) _ :=
      arguments_gives parsed completed insideSeen value closes fuel fuel
    rw [List.cons_append, List.cons_append, List.append_assoc]
    show Gives (postfixed _ _ (.id n :: opening :: _)) _
    rw [postfixed_id, if_pos (by exact asDelimiter_eq_lparen opens)]
    exact given.andThen ((expectOp_gives value rest).andThen (.inr rfl))

theorem Derives.completed {level : Level} {seen : List (Token ν)} {node : Node ν}
    (derived : Derives level seen node) : Completed seen level node := by
  induction derived with
  | @tighter level seen node derived ih =>
    intro fuel tokens rest same follows
    obtain ⟨first, more, rfl, begins⟩ := derived.begins
    obtain ⟨tok, after, rfl, unchanged, _⟩ := delimited_eq_cons same
    rw [asDelimiter_start] at unchanged
    subst unchanged
    refine reaches_tighter rfl (fun unary => ?_) follows (ih fuel _ rest same follows.tighter)
    subst unary
    obtain begins | ⟨_, other, _⟩ := begins
    · exact begins
    · exact absurd rfl other
  | binary found left right ihLeft ihRight =>
    intro fuel tokens rest same follows
    obtain ⟨before, after, rfl, beforeSeen, following⟩ := delimited_eq_append same
    obtain ⟨tok, after, rfl, unchanged, afterSeen⟩ := delimited_eq_cons following
    rw [leaves_operator found] at afterSeen
    obtain ⟨o, rfl, _⟩ := operators_op found
    obtain rfl := asDelimiter_eq_op unchanged
    rw [List.append_assoc]
    exact reaches_binary found (ihLeft fuel before _ beforeSeen (mayFollow_operator found _))
      ((ihRight fuel after rest afterSeen follows.tighter).gives follows.stops)
  | minus derived ih =>
    intro fuel tokens rest same follows
    obtain ⟨tok, after, rfl, unchanged, afterSeen⟩ := delimited_eq_cons same
    obtain rfl := asDelimiter_eq_op unchanged
    have inner := (ih fuel after rest afterSeen follows).gives (by cases rest <;> rfl)
    exact Gives.reaches (fun _ => rfl) (inner.andThen (.inr rfl))
  | plus derived ih =>
    intro fuel tokens rest same follows
    obtain ⟨tok, after, rfl, unchanged, afterSeen⟩ := delimited_eq_cons same
    obtain rfl := asDelimiter_eq_op unchanged
    exact Gives.reaches (fun _ => rfl)
      ((ih fuel after rest afterSeen follows).gives (by cases rest <;> rfl))
  | percent derived ih =>
    intro fuel tokens rest same follows
    obtain ⟨before, after, rfl, beforeSeen, following⟩ := delimited_eq_append same
    obtain ⟨tok, after, rfl, unchanged, nothing⟩ := delimited_eq_cons following
    obtain rfl := asDelimiter_eq_op unchanged
    cases after with
    | cons next after => cases nothing
    | nil =>
      have primaryFollows : MayFollow .primary (.op .percent :: rest) := by
        refine ⟨by simp [Token.value, Op.text], fun other looser => ?_, fun same => absurd rfl same⟩
        cases other <;> exact absurd looser (by decide)
      have inner := (ih fuel before _ beforeSeen primaryFollows).gives rfl
      rw [List.append_assoc]
      exact Gives.reaches (fun _ => rfl) (inner.andThen (.inr rfl))
  | num n => exact postfixed_gives rfl fun _ _ _ => rfl
  | str n => exact postfixed_gives rfl fun _ _ _ => rfl
  | bool n => exact postfixed_gives rfl fun _ _ _ => rfl
  | ref n => exact postfixed_gives rfl fun _ _ _ => rfl
  | name n =>
    refine postfixed_gives rfl fun fuel rest follows => ?_
    rw [postfixed_id, if_neg follows.noCall]
  | group _ ih => exact group_completed ih
  | call n several omitted derived ih => exact call_completed n ⟨several, omitted, derived⟩ ih

section Parse

variable {fuel : Nat} {tokens : List (Token ν)}

theorem parse_iff (fits : tokens.length < fuel) (node : Node ν) :
    parse fuel tokens = some (.ok node) ↔ Derives .comparison (delimited .start tokens) node := by
  refine ⟨parse_derives, fun derived => ?_⟩
  have read : Gives (expr fuel (tokens ++ [])) (node, []) :=
    derived.completed.expr rfl ⟨mayFollow_nil _, rfl⟩ fuel
  rw [List.append_nil] at read
  have given : Gives (parse fuel tokens) node := read.andThen (.inr rfl)
  obtain stuck | given := given
  · obtain ⟨result, returned⟩ := parse_returns fits
    rw [stuck] at returned
    cases returned
  · exact given

theorem delimited_separated {parts : List (List (Token ν))}
    (same : ∀ part ∈ parts, delimited .start part = part) :
    delimited .start (separated parts) = separated parts := by
  induction parts with
  | nil => rfl
  | cons part parts ih =>
    rw [List.forall_mem_cons] at same
    cases parts with
    | nil => exact same.1
    | cons next parts =>
      rw [separated_cons (List.cons_ne_nil _ _), delimited_append, same.1, delimited_comma,
        ih same.2]

theorem parseFormula_iff (float : Text → ν) (text : Text) (node : Node ν) :
    parseFormula float text = some (.ok node) ↔
      ∃ tokens, tokenize float text = .ok tokens ∧
        Derives .comparison (delimited .start tokens) node := by
  unfold parseFormula
  cases tokenize float text with
  | error position => simp
  | ok tokens => simp [parse_iff (Nat.lt_succ_self _)]

theorem Derives.delimited {level : Level} {node : Node ν} (derived : Derives level tokens node) :
    Parser.delimited .start tokens = tokens := by
  induction derived with
  | tighter _ ih => exact ih
  | binary found _ _ ihLeft ihRight =>
    rw [delimited_append, ihLeft, delimited_operator found, ihRight]
  | minus _ ih | plus _ ih =>
    rw [delimited_cons, asDelimiter_op]
    exact congrArg _ ih
  | percent _ ih =>
    rw [delimited_append, ih, delimited_cons, asDelimiter_op]
    rfl
  | num | str | bool | ref | name =>
    rw [delimited_cons, asDelimiter_start]
    rfl
  | group _ ih =>
    rw [List.cons_append, delimited_cons, asDelimiter_start]
    show _ :: Parser.delimited .start _ = _
    rw [delimited_append, ih, delimited_cons, asDelimiter_rparen]
    rfl
  | @call n args several omitted derived ih =>
    have parts : ∀ part ∈ args.map Prod.fst, Parser.delimited .start part = part := by
      intro part mem
      obtain ⟨arg, listed, rfl⟩ := List.mem_map.mp mem
      by_cases empty : arg.1 = []
      · rw [empty]
        rfl
      · exact ih arg listed empty
    have opening : asDelimiter .name (.lparen : Token ν) = .lparen := asDelimiter_name rfl
    rw [List.cons_append, List.cons_append, delimited_cons, asDelimiter_start]
    show _ :: Parser.delimited .name _ = _
    rw [delimited_cons, opening]
    show _ :: _ :: Parser.delimited .start _ = _
    rw [delimited_append, delimited_separated parts, delimited_cons, asDelimiter_rparen]
    rfl

end Parse

/-- What the parser is for: with fuel enough it ends, with the tree of a derivation if there is
one and with a ValueError otherwise. -/
def AcceptsGrammar (tokens : List (Token ν)) : Prop :=
  ∀ fuel, tokens.length < fuel →
    (∀ node, parse fuel tokens = some (.ok node) ↔ Derives .comparison tokens node) ∧
      ((∀ node, ¬ Derives .comparison tokens node) → ∃ e, parse fuel tokens = some (.error e))

def ParensOnly (tokens : List (Token ν)) : Prop :=
  delimited .start tokens = tokens ∨ ∀ node, ¬ Derives .comparison (delimited .start tokens) node

theorem acceptsGrammar_iff (tokens : List (Token ν)) :
    AcceptsGrammar tokens ↔ ParensOnly tokens := by
  constructor
  · intro accepts
    by_contra other
    unfold ParensOnly at other
    push Not at other
    obtain ⟨replaced, node, derived⟩ := other
    have parsed := (parse_iff (Nat.lt_succ_self _) node).mpr derived
    have derived := ((accepts _ (Nat.lt_succ_self _)).1 node).mp parsed
    exact replaced derived.delimited
  · intro parens fuel fits
    have exact_ (node : Node ν) :
        parse fuel tokens = some (.ok node) ↔ Derives .comparison tokens node := by
      rw [parse_iff fits]
      obtain same | none_ := parens
      · rw [same]
      · refine iff_of_false (none_ node) fun derived => none_ node ?_
        rwa [derived.delimited]
    refine ⟨exact_, fun none_ => ?_⟩
    obtain ⟨result, returned⟩ := parse_returns fits
    cases result with
    | error e => exact ⟨e, returned⟩
    | ok node => exact absurd ((exact_ node).mp returned) (none_ node)

def NoParenString (tokens : List (Token ν)) : Prop :=
  ∀ s, .str s ∈ tokens → s ≠ ['('] ∧ s ≠ [')']

theorem NoParenString.asDelimiter {float : Text → ν} {text : Text} {tokens : List (Token ν)}
    (plain : NoParenString tokens) (read : tokenize float text = .ok tokens) {tok : Token ν}
    (mem : tok ∈ tokens) (place : Place) : asDelimiter place tok = tok := by
  -- the tokenizer gives the text of a parenthesis to a parenthesis or to a string only
  have paren {p : Char} (one : p = '(' ∨ p = ')') (value : tok.value = some [p]) :
      tok = .lparen ∨ tok = .rparen := by
    obtain found | found | ⟨s, rfl⟩ := tokenize_paren read one mem value
    · exact .inl found
    · exact .inr found
    · have differs := plain s mem
      cases value
      obtain rfl | rfl := one
      · exact absurd rfl differs.1
      · exact absurd rfl differs.2
  have read_as : Parser.asDelimiter place tok = Parser.asDelimiter place tok := rfl
  obtain same | ⟨_, value, same⟩ | ⟨_, value, same⟩ := asDelimiter_eq read_as
  · exact same.symm
  · obtain rfl | rfl := paren (.inl rfl) value
    · exact same
    · cases value
  · obtain rfl | rfl := paren (.inr rfl) value
    · cases value
    · exact same

theorem delimited_of_same {tokens : List (Token ν)}
    (same : ∀ tok ∈ tokens, ∀ place, asDelimiter place tok = tok) (place : Place) :
    delimited place tokens = tokens := by
  induction tokens generalizing place with
  | nil => rfl
  | cons tok rest ih =>
    rw [List.forall_mem_cons] at same
    rw [delimited_cons, same.1 place, ih same.2]

/-- A formula none of whose string literals is a parenthesis is parsed as the grammar has it. -/
theorem parseFormula_grammar {float : Text → ν} {text : Text} {tokens : List (Token ν)}
    (read : tokenize float text = .ok tokens) (plain : NoParenString tokens) :
    (∀ node, parseFormula float text = some (.ok node) ↔ Derives .comparison tokens node) ∧
      ((∀ node, ¬ Derives .comparison tokens node) →
        ∃ e, parseFormula float text = some (.error e)) := by
  have same := delimited_of_same (fun _ mem => plain.asDelimiter read mem) .start
  have parsed (node : Node ν) :
      parseFormula float text = some (.ok node) ↔ Derives .comparison tokens node := by
    simp only [parseFormula_iff, read, Except.ok.injEq, exists_eq_left', same]
  refine ⟨parsed, fun none_ => ?_⟩
  obtain ⟨result, returned⟩ := parseFormula_returns float text
  cases result with
  | error e => exact ⟨e, returned⟩
  | ok node => exact absurd ((parsed node).mp returned) (none_ node)

/-- `"a"&(1)` -/
theorem parseFormula_grammar_concat : Derives .comparison
    [.str ['a'], .op .concat, .lparen, .num ['1'], .rparen]
    (.binary .concat (.str ['a']) (.num ['1'])) := by
  have read : tokenize id ['"', 'a', '"', '&', '(', '1', ')'] =
      .ok [.str ['a'], .op .concat, .lparen, .num ['1'], .rparen] := by decide +kernel
  refine ((parseFormula_grammar read fun s mem => ?_).1 _).mp (by rw [parseFormula, read]; rfl)
  obtain rfl : s = ['a'] := by simpa using mem
  decide

/-- `(1")"` is read as `(1)`. -/
theorem string_closes_group :
    tokenize id ['(', '1', '"', ')', '"'] = .ok [.lparen, .num ['1'], .str [')']] ∧
      parse 4 [.lparen, .num ['1'], .str [')']] = some (.ok (.num ['1'])) ∧
      ¬ AcceptsGrammar [.lparen, .num ['1'], .str [')']] := by
  have parsed : parse 4 [.lparen, .num ['1'], .str [')']] = some (.ok (.num ['1'])) := rfl
  refine ⟨by decide +kernel, parsed, fun accepts => ?_⟩
  have derived := ((accepts 4 (by decide)).1 _).mp parsed
  exact absurd derived.delimited (by decide +kernel)

end Plexichat.Sum.Parser
