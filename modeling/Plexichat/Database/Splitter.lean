import Mathlib.Data.List.TakeWhile
import Plexichat.Library.Matches
import Plexichat.Library.Numeral

/-! core/database/core/schema_splitter: a text of several SQL statements is cut into them. -/
namespace Plexichat.Database.Splitter

open Matches

section Code

def opens (a b : Char) : List Char → Bool
  | c :: d :: _ => c == a && d == b
  | _ => false

/-- `--[^\n]*` -/
def lineComment (t : List Char) : Option Nat :=
  if opens '-' '-' t then some (((t.drop 2).takeWhile fun c => c != '\n').length + 2) else none

/-- The length up to the first `*/`, with it. -/
def toStarSlash : List Char → Option Nat
  | [] => none
  | c :: t => if opens '*' '/' (c :: t) then some 2 else (toStarSlash t).map (· + 1)

/-- `/\*.*?\*/` -/
def blockComment (t : List Char) : Option Nat :=
  if opens '/' '*' t then (toStarSlash (t.drop 2)).map (· + 2) else none

/-- `(?:''|[^'])*'` behind an opening quote. Where no quote closes, the last pair is taken apart. -/
def toQuote (quote : Char) : List Char → Option Nat
  | [] => none
  | [c] => if c = quote then some 1 else none
  | c :: d :: t =>
    if c = quote then
      if d = quote then
        match toQuote quote t with
        | some n => some (n + 2)
        | none => some 1
      else some 1
    else (toQuote quote (d :: t)).map (· + 1)

def quoted (quote : Char) : List Char → Option Nat
  | [] => none
  | c :: t => if c = quote then (toQuote quote t).map (· + 1) else none

def blankBlocks (t : List Char) : List Char := blank blockComment ' ' t

def blankLines (t : List Char) : List Char := blank lineComment ' ' t

def blankQuoted (quote : Char) (t : List Char) : List Char := blank (quoted quote) ' ' t

def blankAmbiguousRanges (sql : List Char) : List Char :=
  blankQuoted '"' (blankQuoted '\'' (blankLines (blankBlocks sql)))

def isBlank (c : Char) : Bool := c == ' ' || c == '\t' || c == '\r' || c == '\n'

/-- `_iter_statement_ranges` from offset `i` on; behind a semicolon, blanks are passed first. -/
def iterStatementRanges (start i : Nat) (inStatement passing : Bool) :
    List Char → List (Nat × Nat)
  | [] => if inStatement && decide (start < i) then [(start, i)] else []
  | c :: t =>
    if passing && isBlank c then iterStatementRanges (i + 1) (i + 1) false true t
    else if c = ';' then (start, i + 1) :: iterStatementRanges (i + 1) (i + 1) false true t
    else iterStatementRanges start (i + 1) (inStatement || !isBlank c) false t

def takeStatement (sql : List Char) (state : Nat × List (List Char)) (range : Nat × Nat) :
    Nat × List (List Char) :=
  if range.2 ≤ state.1 then state
  else
    let stmt := Numeral.strip ((sql.take range.2).drop state.1)
    (range.2, if stmt = [] then state.2 else state.2 ++ [stmt])

def splitSqlStatements (sql : List Char) : List (List Char) :=
  if sql = [] then []
  else
    let cleaned := blankAmbiguousRanges sql
    let (cursor, statements) :=
      (iterStatementRanges 0 0 false false cleaned).foldl (takeStatement sql) (0, [])
    if cursor < cleaned.length then
      let trailing := Numeral.strip (sql.drop cursor)
      if trailing = [] then statements else statements ++ [trailing]
    else statements

end Code

section Lexer

def quotedEnd (quote : Char) : List Char → Nat
  | [] => 0
  | [_] => 1
  | c :: d :: t =>
    if c = quote then if d = quote then quotedEnd quote t + 2 else 1
    else quotedEnd quote (d :: t) + 1

def regionAt : List Char → Option Nat
  | [] => none
  | c :: t =>
    if c = '\'' ∨ c = '"' then some (quotedEnd c t + 1)
    else if opens '/' '*' (c :: t) then
      some ((toStarSlash (t.drop 1)).getD (t.drop 1).length + 2)
    else lineComment (c :: t)

def cutsOf : Nat → List (Char ⊕ List Char) → List Nat
  | _, [] => []
  | i, .inl c :: l => if c = ';' then (i + 1) :: cutsOf (i + 1) l else cutsOf (i + 1) l
  | i, .inr w :: l => cutsOf (i + w.length) l

def cuts (sql : List Char) : List Nat := cutsOf 0 (pieces regionAt 0 sql)

def slices (sql : List Char) : Nat → List Nat → List (List Char)
  | start, [] => [sql.drop start]
  | start, cut :: rest => (sql.take cut).drop start :: slices sql cut rest

def statements (sql : List Char) (cuts : List Nat) : List (List Char) :=
  ((slices sql 0 cuts).map Numeral.strip).filter fun stmt => decide (stmt ≠ [])

end Lexer

section Cutting

def semicolons : Nat → List Char → List Nat
  | _, [] => []
  | i, c :: t => if c = ';' then (i + 1) :: semicolons (i + 1) t else semicolons (i + 1) t

theorem lt_of_mem_semicolons {i cut : Nat} {t : List Char} (member : cut ∈ semicolons i t) :
    i < cut := by
  induction t generalizing i with
  | nil => cases member
  | cons c t ih =>
    rw [semicolons] at member
    split at member
    · rcases List.mem_cons.mp member with rfl | later
      · exact Nat.lt_succ_self i
      · exact Nat.lt_of_succ_lt (ih later)
    · exact Nat.lt_of_succ_lt (ih member)

theorem semicolons_increasing (i : Nat) (t : List Char) : (semicolons i t).Pairwise (· < ·) := by
  induction t generalizing i with
  | nil => exact .nil
  | cons c t ih =>
    rw [semicolons]
    split
    · exact List.pairwise_cons.mpr ⟨fun cut member => lt_of_mem_semicolons member, ih (i + 1)⟩
    · exact ih (i + 1)

theorem ends_iterStatementRanges (start i : Nat) (inStatement passing : Bool) (t : List Char) :
    (iterStatementRanges start i inStatement passing t).map Prod.snd = semicolons i t ∨
      (iterStatementRanges start i inStatement passing t).map Prod.snd =
        semicolons i t ++ [i + t.length] := by
  induction t generalizing start i inStatement passing with
  | nil =>
    rw [iterStatementRanges]
    split
    · exact .inr rfl
    · exact .inl rfl
  | cons c t ih =>
    have length : i + (c :: t).length = i + 1 + t.length := by
      rw [List.length_cons]
      omega
    rw [iterStatementRanges, semicolons, length]
    split
    · rename_i passed
      have other : c ≠ ';' := by
        rintro rfl
        exact absurd passed (by simp [isBlank])
      rw [if_neg other]
      exact ih (i + 1) (i + 1) false true
    · split
      · rw [List.map_cons, List.cons_append, List.cons.injEq, List.cons.injEq]
        simpa using ih (i + 1) (i + 1) false true
      · exact ih start (i + 1) (inStatement || !isBlank c) false

def finished (sql : List Char) (state : Nat × List (List Char)) : List (List Char) :=
  state.2 ++ ([sql.drop state.1].map Numeral.strip).filter fun stmt => decide (stmt ≠ [])

theorem append_filter (out : List (List Char)) (stmt : List Char) :
    (if stmt = [] then out else out ++ [stmt]) =
      out ++ [stmt].filter fun stmt => decide (stmt ≠ []) := by
  by_cases empty : stmt = []
  · rw [if_pos empty, empty]
    exact (List.append_nil out).symm
  · rw [if_neg empty, List.filter_cons_of_pos (by simpa using empty)]
    rfl

theorem finished_foldl (sql : List Char) {ranges : List (Nat × Nat)} {cursor : Nat}
    (out : List (List Char)) (increasing : (cursor :: ranges.map Prod.snd).Pairwise (· < ·)) :
    finished sql (ranges.foldl (takeStatement sql) (cursor, out)) =
      out ++ ((slices sql cursor (ranges.map Prod.snd)).map Numeral.strip).filter
        fun stmt => decide (stmt ≠ []) := by
  induction ranges generalizing cursor out with
  | nil => rfl
  | cons range ranges ih =>
    obtain ⟨before, later⟩ := List.pairwise_cons.mp increasing
    have forward := before range.2 List.mem_cons_self
    rw [List.foldl_cons, takeStatement, if_neg (Nat.not_le.mpr forward), ih _ later, append_filter,
      List.map_cons, slices, List.map_cons, List.append_assoc, ← List.filter_append]
    rfl

theorem finished_of_le {sql : List Char} {state : Nat × List (List Char)}
    (whole : sql.length ≤ state.1) : finished sql state = state.2 := by
  rw [finished, List.drop_eq_nil_of_le whole]
  exact List.append_nil _

theorem finished_last (sql : List Char) (state : Nat × List (List Char)) (start : Nat) :
    finished sql (takeStatement sql state (start, sql.length)) = finished sql state := by
  rw [takeStatement]
  split
  · rfl
  · rw [finished_of_le (Nat.le_refl _)]
    dsimp only
    rw [append_filter, List.take_length]
    rfl

theorem splitSqlStatements_eq {sql : List Char}
    (length : (blankAmbiguousRanges sql).length = sql.length) :
    splitSqlStatements sql = statements sql (semicolons 0 (blankAmbiguousRanges sql)) := by
  cases sql with
  | nil => rfl
  | cons c t =>
    generalize whole : c :: t = sql at length ⊢
    have some_text : sql ≠ [] := by
      rw [← whole]
      exact List.cons_ne_nil c t
    generalize cleaned : blankAmbiguousRanges sql = text at length
    have code : splitSqlStatements sql = finished sql
        ((iterStatementRanges 0 0 false false text).foldl (takeStatement sql) (0, [])) := by
      rw [splitSqlStatements, if_neg some_text, cleaned]
      dsimp only
      split
      · exact append_filter _ _
      · rename_i passed
        rw [finished_of_le (by omega)]
    have increasing : (0 :: semicolons 0 text).Pairwise (· < ·) :=
      List.pairwise_cons.mpr ⟨fun cut member => lt_of_mem_semicolons member,
        semicolons_increasing 0 text⟩
    rw [code]
    rcases ends_iterStatementRanges 0 0 false false text with ends | ends
    · rw [finished_foldl sql [] (ends ▸ increasing), ends]
      rfl
    · obtain ⟨ranges, last, split, front, back⟩ := List.map_eq_append_iff.mp ends
      obtain ⟨range, rfl, same⟩ := List.map_eq_singleton_iff.mp back
      have range_eq : range = (range.1, sql.length) := by
        rw [← length, ← Nat.zero_add text.length, ← same]
      rw [split, List.foldl_append, List.foldl_cons, List.foldl_nil, range_eq, finished_last,
        finished_foldl sql [] (front ▸ increasing), front]
      rfl

theorem flatten_slices (sql : List Char) {start : Nat} {cuts : List Nat}
    (increasing : (start :: cuts).Pairwise (· < ·)) :
    (slices sql start cuts).flatten = sql.drop start := by
  induction cuts generalizing start with
  | nil => rw [slices, List.flatten_singleton]
  | cons cut rest ih =>
    obtain ⟨first, later⟩ := List.pairwise_cons.mp increasing
    have split : (sql.drop start).drop (cut - start) = sql.drop cut := by
      rw [List.drop_drop, Nat.add_sub_cancel' (Nat.le_of_lt (first cut List.mem_cons_self))]
    rw [slices, List.flatten_cons, ih later, List.drop_take, ← split, List.take_append_drop]

/-- What is seen of a text: `str.strip` and the dropping of empty statements leave it. -/
def visible (t : List Char) : List Char := t.filter fun c => !Numeral.isSpace c

theorem visible_strip (t : List Char) : visible (Numeral.strip t) = visible t := by
  obtain ⟨before, after, split, left, right⟩ := Numeral.trim_split Numeral.isSpace t
  have none_ {ends : List Char} (blank : ∀ c ∈ ends, Numeral.isSpace c = true) :
      visible ends = [] := List.filter_eq_nil_iff.mpr fun c member => by simp [blank c member]
  calc
    visible (Numeral.strip t) = visible before ++ visible (Numeral.strip t) ++ visible after := by
      rw [none_ left, none_ right, List.nil_append, List.append_nil]
    _ = visible (before ++ Numeral.strip t ++ after) := by
      simp only [visible, List.filter_append]
    _ = visible t := by rw [Numeral.strip, ← split]

theorem visible_statements (sql : List Char) (cuts : List Nat) :
    visible (statements sql cuts).flatten = visible (slices sql 0 cuts).flatten := by
  unfold statements
  rw [List.flatten_filter_ne_nil]
  simp only [visible, List.filter_flatten, List.map_map]
  congr 1
  exact List.map_congr_left fun slice _ => visible_strip slice

end Cutting

section Patterns

variable {q c : Char} {b r t w : List Char}

theorem opens_iff {x y : Char} : opens x y t = true ↔ ∃ t', t = x :: y :: t' := by
  cases t with
  | nil => simp [opens]
  | cons c t =>
    cases t with
    | nil => simp [opens]
    | cons d t => simp [opens]

theorem bounded_lineComment : Bounded lineComment := by
  intro t n found
  rw [lineComment] at found
  split at found
  · rename_i opened
    cases found
    obtain ⟨t, rfl⟩ := opens_iff.mp opened
    have shorter := (List.takeWhile_sublist (l := t) fun c => c != '\n').length_le
    simp only [List.drop_succ_cons, List.drop_zero, List.length_cons]
    omega
  · cases found

theorem toStarSlash_ends {n : Nat} (found : toStarSlash t = some n) :
    ∃ b r, t = b ++ '*' :: '/' :: r ∧ n = b.length + 2 := by
  induction t generalizing n with
  | nil => cases found
  | cons c t ih =>
    rw [toStarSlash] at found
    split at found
    · rename_i closed
      cases found
      cases t with
      | nil => cases closed
      | cons d t =>
        rw [opens, Bool.and_eq_true, beq_iff_eq, beq_iff_eq] at closed
        rw [closed.1, closed.2]
        exact ⟨[], t, rfl, rfl⟩
    · obtain ⟨k, inside, rfl⟩ := Option.map_eq_some_iff.mp found
      obtain ⟨b, r, rfl, rfl⟩ := ih inside
      exact ⟨c :: b, r, rfl, rfl⟩

theorem bounded_blockComment : Bounded blockComment := by
  intro t n found
  rw [blockComment] at found
  split at found
  · rename_i opened
    obtain ⟨k, inside, rfl⟩ := Option.map_eq_some_iff.mp found
    obtain ⟨b, r, rest, rfl⟩ := toStarSlash_ends inside
    obtain ⟨t, rfl⟩ := opens_iff.mp opened
    rw [List.drop_succ_cons, List.drop_succ_cons, List.drop_zero] at rest
    simp [rest]
  · cases found

theorem toQuote_ends {n : Nat} (found : toQuote q t = some n) :
    ∃ b r, t = b ++ q :: r ∧ n = b.length + 1 := by
  fun_induction toQuote q t generalizing n with
  | case1 => cases found
  | case2 =>
    cases found
    exact ⟨[], [], rfl, rfl⟩
  | case3 => cases found
  | case4 t k inside ih =>
    cases found
    obtain ⟨b, r, rfl, rfl⟩ := ih inside
    exact ⟨q :: q :: b, r, rfl, rfl⟩
  | case5 t none ih =>
    cases found
    exact ⟨[], q :: t, rfl, rfl⟩
  | case6 d t other =>
    cases found
    exact ⟨[], d :: t, rfl, rfl⟩
  | case7 c d t other ih =>
    obtain ⟨k, inside, rfl⟩ := Option.map_eq_some_iff.mp found
    obtain ⟨b, r, same, rfl⟩ := ih inside
    exact ⟨c :: b, r, by rw [same, List.cons_append], rfl⟩

theorem bounded_quoted (q : Char) : Bounded (quoted q) := by
  intro t n found
  cases t with
  | nil => cases found
  | cons c t =>
    rw [quoted] at found
    split at found
    · obtain ⟨k, inside, rfl⟩ := Option.map_eq_some_iff.mp found
      obtain ⟨b, r, rfl, rfl⟩ := toQuote_ends inside
      simp
    · cases found

def paired (quote : Char) : List Char → Bool
  | [] => true
  | [c] => c != quote
  | c :: d :: t =>
    if c = quote then d == quote && paired quote t else paired quote (d :: t)

theorem paired_cons_of_ne (other : c ≠ q) (t : List Char) : paired q (c :: t) = paired q t := by
  cases t with
  | nil => simpa [paired] using other
  | cons d t => rw [paired, if_neg other]

theorem paired_quote (t : List Char) :
    paired q (q :: t) = true ↔ ∃ t', t = q :: t' ∧ paired q t' = true := by
  cases t with
  | nil => simp [paired]
  | cons d t =>
    rw [paired, if_pos rfl, Bool.and_eq_true, beq_iff_eq]
    constructor
    · rintro ⟨rfl, rest⟩
      exact ⟨t, rfl, rest⟩
    · rintro ⟨t', same, rest⟩
      cases same
      exact ⟨rfl, rest⟩

theorem toQuote_cons_of_ne (other : c ≠ q) (t : List Char) :
    toQuote q (c :: t) = (toQuote q t).map (· + 1) := by
  cases t with
  | nil => simp [toQuote, other]
  | cons d t => rw [toQuote, if_neg other]

theorem quotedEnd_cons_of_ne (other : c ≠ q) (t : List Char) :
    quotedEnd q (c :: t) = quotedEnd q t + 1 := by
  cases t with
  | nil => rfl
  | cons d t => rw [quotedEnd, if_neg other]

theorem paired_induction {P : List Char → Prop} (nil : P [])
    (other : ∀ c b, c ≠ q → paired q b = true → P b → P (c :: b))
    (pair : ∀ b, paired q b = true → P b → P (q :: q :: b)) (b : List Char)
    (pairs : paired q b = true) : P b := by
  induction size : b.length using Nat.strongRecOn generalizing b with
  | ind n ih =>
    cases b with
    | nil => exact nil
    | cons c b =>
      rw [List.length_cons] at size
      by_cases quote : c = q
      · subst quote
        obtain ⟨b, rfl, rest⟩ := (paired_quote b).mp pairs
        rw [List.length_cons] at size
        exact pair b rest (ih b.length (by omega) b rest rfl)
      · rw [paired_cons_of_ne quote] at pairs
        exact other c b quote pairs (ih b.length (by omega) b pairs rfl)

theorem toQuote_closed (pairs : paired q b = true) (ends : r.head? ≠ some q) :
    toQuote q (b ++ q :: r) = some (b.length + 1) ∧ quotedEnd q (b ++ q :: r) = b.length + 1 := by
  refine paired_induction (P := fun b => toQuote q (b ++ q :: r) = some (b.length + 1) ∧
    quotedEnd q (b ++ q :: r) = b.length + 1) ?_ ?_ ?_ b pairs
  · cases r with
    | nil => simp [toQuote, quotedEnd]
    | cons d r =>
      have other : d ≠ q := fun same => ends (congrArg some same)
      simp [toQuote, quotedEnd, other]
  · intro c b other _ ih
    rw [List.cons_append, toQuote_cons_of_ne other, quotedEnd_cons_of_ne other, ih.1, ih.2]
    exact ⟨rfl, rfl⟩
  · intro b _ ih
    rw [List.cons_append, List.cons_append, toQuote, quotedEnd, if_pos rfl, if_pos rfl, if_pos rfl,
      if_pos rfl, ih.1, ih.2]
    exact ⟨rfl, rfl⟩

theorem paired_of_append (pairs : paired q (w ++ r) = true)
    (apart : w.getLast? = some q → r.head? ≠ some q) : paired q r = true := by
  induction size : w.length using Nat.strongRecOn generalizing w with
  | ind n ih =>
    cases w with
    | nil => exact pairs
    | cons c w =>
      rw [List.length_cons] at size
      rw [List.cons_append] at pairs
      by_cases quote : c = q
      · subst quote
        obtain ⟨rest, same, pairs⟩ := (paired_quote _).mp pairs
        cases w with
        | nil =>
          rw [List.nil_append] at same
          rw [same] at apart
          exact absurd rfl (apart rfl)
        | cons d w =>
          rw [List.length_cons] at size
          obtain ⟨rfl, rfl⟩ := List.cons.inj same
          refine ih w.length (by omega) pairs (fun last => apart ?_) rfl
          cases w with
          | nil => cases last
          | cons e w => simpa using last
      · rw [paired_cons_of_ne quote] at pairs
        refine ih w.length (by omega) pairs (fun last => apart ?_) rfl
        cases w with
        | nil => cases last
        | cons e w => simpa using last

theorem paired_spaces (space : q ≠ ' ') (n : Nat) (t : List Char) :
    paired q (List.replicate n ' ' ++ t) = paired q t := by
  induction n with
  | zero => rfl
  | succ n ih => rw [List.replicate_succ, List.cons_append, paired_cons_of_ne space.symm, ih]

structure Spares (quote : Char) (m : List Char → Option Nat) : Prop where
  first : ∀ t, m (quote :: t) = none
  last : ∀ w r, m (w ++ r) = some w.length → w.getLast? = some quote → r.head? ≠ some quote

theorem paired_blank {m : List Char → Option Nat} (bounded : Bounded m) (spares : Spares q m)
    (space : q ≠ ' ') (pairs : paired q b = true) : paired q (blank m ' ' b) = true := by
  induction size : b.length using Nat.strongRecOn generalizing b with
  | ind n ih =>
    cases b with
    | nil => exact pairs
    | cons c b =>
      by_cases quote : c = q
      · subst quote
        obtain ⟨b, rfl, rest⟩ := (paired_quote b).mp pairs
        rw [List.length_cons, List.length_cons] at size
        rw [blank_of_none (spares.first _), blank_of_none (spares.first _)]
        exact (paired_quote _).mpr ⟨_, rfl, ih b.length (by omega) rest rfl⟩
      · rw [List.length_cons] at size
        have rest : paired q b = true := paired_cons_of_ne quote b ▸ pairs
        have kept : paired q (c :: blank m ' ' b) = true := by
          rw [paired_cons_of_ne quote]
          exact ih b.length (by omega) rest rfl
        cases here : m (c :: b) with
        | none => rwa [blank_of_none here]
        | some k =>
          cases k with
          | zero => rwa [blank_of_zero here]
          | succ k =>
            obtain ⟨w, r, split, some_element, whole⟩ := exists_match bounded here
            have length := congrArg List.length split
            rw [List.length_cons, List.length_append] at length
            have longer := List.length_pos_of_ne_nil some_element
            rw [split] at pairs ⊢
            rw [blank_of_match whole some_element, paired_spaces space]
            exact ih r.length (by omega) (paired_of_append pairs (spares.last w r whole)) rfl

theorem spares_blockComment (other : q ≠ '/') : Spares q blockComment where
  first t := by
    rw [blockComment, if_neg]
    rw [opens_iff]
    rintro ⟨t', same⟩
    exact other (List.cons.inj same).1
  last w r found last := by
    rw [blockComment] at found
    split at found
    · rename_i opened
      obtain ⟨t, whole⟩ := opens_iff.mp opened
      rw [whole, List.drop_succ_cons, List.drop_succ_cons, List.drop_zero] at found
      obtain ⟨k, inside, length⟩ := Option.map_eq_some_iff.mp found
      obtain ⟨b, r', rfl, rfl⟩ := toStarSlash_ends inside
      have split : w ++ r = (('/' :: '*' :: b ++ ['*']) ++ ['/']) ++ r' := by simp [whole]
      have same := (List.append_inj split (by simp; omega)).1
      rw [same, List.getLast?_concat] at last
      exact absurd (Option.some.inj last).symm other
    · cases found

theorem spares_lineComment (dash : q ≠ '-') (line : q ≠ '\n') : Spares q lineComment where
  first t := by
    rw [lineComment, if_neg]
    rw [opens_iff]
    rintro ⟨t', same⟩
    exact dash (List.cons.inj same).1
  last w r found _ := by
    rw [lineComment] at found
    split at found
    · rename_i opened
      obtain ⟨t, whole⟩ := opens_iff.mp opened
      rw [whole, List.drop_succ_cons, List.drop_succ_cons, List.drop_zero] at found
      have split : w ++ r = ('-' :: '-' :: t.takeWhile fun c => c != '\n') ++
          t.dropWhile fun c => c != '\n' := by
        rw [whole, List.cons_append, List.cons_append, List.takeWhile_append_dropWhile]
      have length := Option.some.inj found
      have same := (List.append_inj split (by simp; omega)).2
      rw [same]
      intro head
      have stops := List.head?_dropWhile_not (fun c => c != '\n') t
      rw [head] at stops
      simp at stops
      exact line stops
    · cases found

theorem spares_quoted {q' : Char} (other : q ≠ q') : Spares q (quoted q') where
  first t := by rw [quoted, if_neg other]
  last w r found last := by
    cases whole : w ++ r with
    | nil =>
      rw [whole] at found
      cases found
    | cons c t =>
      rw [whole, quoted] at found
      split at found
      · obtain ⟨k, inside, length⟩ := Option.map_eq_some_iff.mp found
        obtain ⟨b, r', rfl, rfl⟩ := toQuote_ends inside
        have split : w ++ r = ((c :: b) ++ [q']) ++ r' := by simp [whole]
        have same := (List.append_inj split (by simp; omega)).1
        rw [same, List.getLast?_concat] at last
        exact absurd (Option.some.inj last).symm other
      · cases found

end Patterns

section Regions

def blankComments (t : List Char) : List Char := blankLines (blankBlocks t)

/-- The texts in which each pass does, inside of a region, what it would do if the text ended with the
inside: what it finds there does not reach behind it. A region without an end holds no semicolon. -/
inductive Separate : List Char → Prop where
  | nil : Separate []
  | other {c : Char} {t : List Char} (none : regionAt (c :: t) = none) (rest : Separate t) : Separate (c :: t)
  | line {b r : List Char} (inside : '\n' ∉ b) (ends : ∀ d ∈ r.head?, d = '\n')
      (apart : blankBlocks (b ++ r) = blankBlocks b ++ blankBlocks r) (rest : Separate r) :
      Separate ('-' :: '-' :: (b ++ r))
  | block {b r : List Char} (ends : toStarSlash (b ++ '*' :: '/' :: r) = some (b.length + 2))
      (rest : Separate r) : Separate ('/' :: '*' :: (b ++ '*' :: '/' :: r))
  | string {b r : List Char} (inside : paired '\'' b = true) (ends : r.head? ≠ some '\'')
      (apart : blankComments (b ++ '\'' :: r) = blankComments b ++ blankComments ('\'' :: r))
      (rest : Separate r) : Separate ('\'' :: (b ++ '\'' :: r))
  | identifier {b r : List Char} (inside : paired '"' b = true) (ends : r.head? ≠ some '"')
      (apart : blankQuoted '\'' (blankComments (b ++ '"' :: r)) =
        blankQuoted '\'' (blankComments b) ++ blankQuoted '\'' (blankComments ('"' :: r)))
      (rest : Separate r) : Separate ('"' :: (b ++ '"' :: r))
  | unclosed {t : List Char} (whole : regionAt t = some t.length)
      (none : ';' ∉ blankAmbiguousRanges t) : Separate t

variable {c : Char} {b r t : List Char}

theorem opens_blank {m : List Char → Option Nat} (bounded : Bounded m) {x y : Char}
    (space : y ≠ ' ') (opened : opens x y (c :: blank m ' ' t) = true) :
    opens x y (c :: t) = true := by
  obtain ⟨t', same⟩ := opens_iff.mp opened
  obtain ⟨rfl, second⟩ := List.cons.inj same
  cases t with
  | nil => cases second
  | cons d t =>
    rcases head_blank bounded ' ' d t with ⟨u, front⟩ | ⟨u, front⟩
    · rw [front] at second
      exact opens_iff.mpr ⟨t, by rw [(List.cons.inj second).1]⟩
    · rw [front] at second
      exact absurd (List.cons.inj second).1.symm space

theorem head_blank_ne {m : List Char → Option Nat} (bounded : Bounded m) {q : Char} (space : q ≠ ' ')
    (ends : r.head? ≠ some q) : (blank m ' ' r).head? ≠ some q := by
  cases r with
  | nil => exact ends
  | cons d r =>
    rcases head_blank bounded ' ' d r with ⟨u, front⟩ | ⟨u, front⟩
    · rw [front]
      exact ends
    · rw [front]
      exact fun same => space (Option.some.inj same).symm

theorem blank_spaces {m : List Char → Option Nat} (spared : ∀ t, m (' ' :: t) = none) (n : Nat)
    (t : List Char) :
    blank m ' ' (List.replicate n ' ' ++ t) = List.replicate n ' ' ++ blank m ' ' t := by
  induction n with
  | zero => rfl
  | succ n ih =>
    rw [List.replicate_succ, List.cons_append, blank_of_none (spared _), ih]
    rfl

theorem blankQuoted_spaces {q : Char} (space : q ≠ ' ') (n : Nat) (t : List Char) :
    blankQuoted q (List.replicate n ' ' ++ t) = List.replicate n ' ' ++ blankQuoted q t :=
  blank_spaces (fun t => by rw [quoted, if_neg space.symm]) n t

theorem blankLines_spaces (n : Nat) (t : List Char) :
    blankLines (List.replicate n ' ' ++ t) = List.replicate n ' ' ++ blankLines t :=
  blank_spaces (spares_lineComment (by decide) (by decide)).first n t

theorem blankAmbiguousRanges_other (none : regionAt (c :: t) = none) :
    blankAmbiguousRanges (c :: t) = c :: blankAmbiguousRanges t := by
  rw [regionAt] at none
  split at none
  · cases none
  · rename_i unquoted
    rw [not_or] at unquoted
    split at none
    · cases none
    · rename_i block
      have line : ¬opens '-' '-' (c :: t) = true := by
        intro opened
        rw [lineComment, if_pos opened] at none
        cases none
      have first : blankBlocks (c :: t) = c :: blankBlocks t :=
        blank_of_none (by rw [blockComment, if_neg block])
      have second : blankLines (c :: blankBlocks t) = c :: blankLines (blankBlocks t) :=
        blank_of_none (by
          rw [lineComment, if_neg]
          exact fun opened => line (opens_blank bounded_blockComment (by decide) opened))
      have string : ∀ u, blankQuoted '\'' (c :: u) = c :: blankQuoted '\'' u := fun u =>
        blank_of_none (by rw [quoted, if_neg unquoted.1])
      have identifier : ∀ u, blankQuoted '"' (c :: u) = c :: blankQuoted '"' u := fun u =>
        blank_of_none (by rw [quoted, if_neg unquoted.2])
      rw [blankAmbiguousRanges, first, second, string, identifier]
      rfl

theorem blankAmbiguousRanges_of_comments {n : Nat} {u : List Char}
    (blanked : blankLines (blankBlocks t) = List.replicate n ' ' ++ blankLines (blankBlocks u)) :
    blankAmbiguousRanges t = List.replicate n ' ' ++ blankAmbiguousRanges u := by
  rw [blankAmbiguousRanges, blanked, blankQuoted_spaces (by decide),
    blankQuoted_spaces (by decide)]
  rfl

theorem blankAmbiguousRanges_block
    (ends : toStarSlash (b ++ '*' :: '/' :: r) = some (b.length + 2)) :
    blankAmbiguousRanges ('/' :: '*' :: (b ++ '*' :: '/' :: r)) =
      List.replicate (b.length + 4) ' ' ++ blankAmbiguousRanges r := by
  apply blankAmbiguousRanges_of_comments
  have split : '/' :: '*' :: (b ++ '*' :: '/' :: r) = ('/' :: '*' :: b ++ ['*', '/']) ++ r := by simp
  have length : ('/' :: '*' :: b ++ ['*', '/']).length = b.length + 4 := by simp
  have found : blockComment (('/' :: '*' :: b ++ ['*', '/']) ++ r) =
      some ('/' :: '*' :: b ++ ['*', '/']).length := by
    rw [← split, length, blockComment, if_pos (by simp [opens]), List.drop_succ_cons,
      List.drop_succ_cons, List.drop_zero, ends]
    rfl
  rw [split, blankBlocks, blank_of_match found (by simp), length, blankLines_spaces]
  rfl

theorem takeWhile_line {u : List Char} (inside : '\n' ∉ b) (ends : ∀ d ∈ u.head?, d = '\n') :
    (b ++ u).takeWhile (fun c => c != '\n') = b := by
  rw [List.takeWhile_append_of_pos]
  · cases u with
    | nil => simp
    | cons d u => simp [ends d rfl]
  · intro d member
    simpa using fun same : d = '\n' => inside (same ▸ member)

theorem blankAmbiguousRanges_line (inside : '\n' ∉ b) (ends : ∀ d ∈ r.head?, d = '\n')
    (apart : blankBlocks (b ++ r) = blankBlocks b ++ blankBlocks r) :
    blankAmbiguousRanges ('-' :: '-' :: (b ++ r)) =
      List.replicate (b.length + 2) ' ' ++ blankAmbiguousRanges r := by
  apply blankAmbiguousRanges_of_comments
  have dash : ∀ u, blankBlocks ('-' :: u) = '-' :: blankBlocks u := fun u =>
    blank_of_none ((spares_blockComment (by decide)).first u)
  have inside' : '\n' ∉ blankBlocks b := fun member =>
    inside (mem_of_mem_blank bounded_blockComment member (by decide))
  have ends' : ∀ d ∈ (blankBlocks r).head?, d = '\n' := by
    cases r with
    | nil => exact fun d member => by cases member
    | cons d r =>
      obtain rfl := ends d rfl
      have kept : blankBlocks ('\n' :: r) = '\n' :: blankBlocks r :=
        blank_of_none ((spares_blockComment (by decide)).first r)
      rw [kept]
      intro e member
      cases member
      rfl
  have split : '-' :: '-' :: (blankBlocks b ++ blankBlocks r) =
      ('-' :: '-' :: blankBlocks b) ++ blankBlocks r := rfl
  have length : (blankBlocks b).length = b.length := length_blank bounded_blockComment b
  have found : lineComment (('-' :: '-' :: blankBlocks b) ++ blankBlocks r) =
      some ('-' :: '-' :: blankBlocks b).length := by
    rw [← split, lineComment, if_pos (by rfl), List.drop_succ_cons, List.drop_succ_cons,
      List.drop_zero, takeWhile_line inside' ends']
    rfl
  rw [dash, dash, apart, split, blankLines, blank_of_match found (by simp), List.length_cons,
    List.length_cons, length]
  rfl

theorem blankComments_quote {q : Char} (dash : q ≠ '-') (slash : q ≠ '/') (line : q ≠ '\n')
    (u : List Char) : blankComments (q :: u) = q :: blankComments u := by
  have first : blankBlocks (q :: u) = q :: blankBlocks u :=
    blank_of_none ((spares_blockComment slash).first u)
  rw [blankComments, first]
  exact blank_of_none ((spares_lineComment dash line).first _)

theorem length_blankComments (u : List Char) : (blankComments u).length = u.length := by
  rw [blankComments, blankLines, length_blank bounded_lineComment, blankBlocks,
    length_blank bounded_blockComment]

theorem blankQuoted_closed {q : Char} {u v : List Char} (inside : paired q u = true)
    (ends : v.head? ≠ some q) : blankQuoted q (q :: (u ++ q :: v)) =
      List.replicate (u.length + 2) ' ' ++ blankQuoted q v := by
  have split : q :: (u ++ q :: v) = (q :: (u ++ [q])) ++ v := by simp
  have length : (q :: (u ++ [q])).length = u.length + 2 := by simp
  have found : quoted q ((q :: (u ++ [q])) ++ v) = some (q :: (u ++ [q])).length := by
    rw [← split, length, quoted, if_pos rfl, (toQuote_closed inside ends).1]
    rfl
  rw [split, blankQuoted, blank_of_match found (by simp), length]
  rfl

theorem blankAmbiguousRanges_string (inside : paired '\'' b = true) (ends : r.head? ≠ some '\'')
    (apart : blankComments (b ++ '\'' :: r) = blankComments b ++ blankComments ('\'' :: r)) :
    blankAmbiguousRanges ('\'' :: (b ++ '\'' :: r)) =
      List.replicate (b.length + 2) ' ' ++ blankAmbiguousRanges r := by
  have quote := blankComments_quote (q := '\'') (by decide) (by decide) (by decide)
  have pairs : paired '\'' (blankComments b) = true :=
    paired_blank bounded_lineComment (spares_lineComment (by decide) (by decide)) (by decide)
      (paired_blank bounded_blockComment (spares_blockComment (by decide)) (by decide) inside)
  have ends' : (blankComments r).head? ≠ some '\'' :=
    head_blank_ne bounded_lineComment (by decide) (head_blank_ne bounded_blockComment (by decide) ends)
  have code : ∀ u, blankAmbiguousRanges u = blankQuoted '"' (blankQuoted '\'' (blankComments u)) :=
    fun u => rfl
  rw [code, code, quote, apart, quote, blankQuoted_closed pairs ends', length_blankComments,
    blankQuoted_spaces (by decide)]

theorem blankAmbiguousRanges_identifier (inside : paired '"' b = true) (ends : r.head? ≠ some '"')
    (apart : blankQuoted '\'' (blankComments (b ++ '"' :: r)) =
      blankQuoted '\'' (blankComments b) ++ blankQuoted '\'' (blankComments ('"' :: r))) :
    blankAmbiguousRanges ('"' :: (b ++ '"' :: r)) =
      List.replicate (b.length + 2) ' ' ++ blankAmbiguousRanges r := by
  have quote : ∀ u, blankQuoted '\'' (blankComments ('"' :: u)) =
      '"' :: blankQuoted '\'' (blankComments u) := by
    intro u
    rw [blankComments_quote (by decide) (by decide) (by decide)]
    exact blank_of_none ((spares_quoted (by decide)).first _)
  have pairs : paired '"' (blankQuoted '\'' (blankComments b)) = true :=
    paired_blank (bounded_quoted _) (spares_quoted (by decide)) (by decide)
      (paired_blank bounded_lineComment (spares_lineComment (by decide) (by decide)) (by decide)
        (paired_blank bounded_blockComment (spares_blockComment (by decide)) (by decide) inside))
  have ends' : (blankQuoted '\'' (blankComments r)).head? ≠ some '"' :=
    head_blank_ne (bounded_quoted _) (by decide) (head_blank_ne bounded_lineComment (by decide)
      (head_blank_ne bounded_blockComment (by decide) ends))
  have length : (blankQuoted '\'' (blankComments b)).length = b.length := by
    rw [blankQuoted, length_blank (bounded_quoted _), length_blankComments]
  have code : ∀ u, blankAmbiguousRanges u = blankQuoted '"' (blankQuoted '\'' (blankComments u)) :=
    fun u => rfl
  rw [code, code, quote, apart, quote, blankQuoted_closed pairs ends', length]

end Regions

section Main

variable {c : Char} {b r t : List Char}

theorem semicolons_spaces (i n : Nat) (t : List Char) :
    semicolons i (List.replicate n ' ' ++ t) = semicolons (i + n) t := by
  induction n generalizing i with
  | zero => rfl
  | succ n ih =>
    rw [List.replicate_succ, List.cons_append, semicolons, if_neg (by decide), ih]
    congr 1
    omega

theorem semicolons_of_not_mem {i : Nat} (none : ';' ∉ t) : semicolons i t = [] := by
  induction t generalizing i with
  | nil => rfl
  | cons c t ih =>
    rw [List.mem_cons, not_or] at none
    rw [semicolons, if_neg fun same => none.1 same.symm, ih none.2]

theorem cuts_region {i : Nat} {w : List Char} (some_element : w ≠ [])
    (region : regionAt (w ++ r) = some w.length)
    (blanked : blankAmbiguousRanges (w ++ r) =
      List.replicate w.length ' ' ++ blankAmbiguousRanges r)
    (rest : semicolons (i + w.length) (blankAmbiguousRanges r) =
      cutsOf (i + w.length) (pieces regionAt 0 r)) :
    semicolons i (blankAmbiguousRanges (w ++ r)) = cutsOf i (pieces regionAt 0 (w ++ r)) := by
  rw [blanked, semicolons_spaces, pieces_of_match region some_element, cutsOf, rest]

theorem semicolons_eq_cuts (separate : Separate t) (i : Nat) :
    semicolons i (blankAmbiguousRanges t) = cutsOf i (pieces regionAt 0 t) := by
  induction separate generalizing i with
  | nil => rfl
  | other none _ ih =>
    rw [blankAmbiguousRanges_other none, pieces_of_none none, semicolons, cutsOf, ih]
  | @line b r inside ends apart _ ih =>
    have split : '-' :: '-' :: (b ++ r) = ('-' :: '-' :: b) ++ r := rfl
    have blanked := blankAmbiguousRanges_line inside ends apart
    rw [split] at blanked ⊢
    refine cuts_region (by simp) ?_ blanked (ih _)
    rw [← split, regionAt, if_neg (by decide), if_neg (by simp [opens]), lineComment,
      if_pos (by rfl), List.drop_succ_cons, List.drop_succ_cons, List.drop_zero,
      takeWhile_line inside ends]
    rfl
  | @block b r ends _ ih =>
    have split : '/' :: '*' :: (b ++ '*' :: '/' :: r) = ('/' :: '*' :: b ++ ['*', '/']) ++ r := by
      simp
    have blanked := blankAmbiguousRanges_block ends
    rw [split] at blanked ⊢
    refine cuts_region (by simp) ?_ (by simpa using blanked) (ih _)
    rw [← split, regionAt, if_neg (by decide), if_pos (by rfl), List.drop_succ_cons, List.drop_zero,
      ends]
    simp
  | @string b r inside ends apart _ ih =>
    have split : '\'' :: (b ++ '\'' :: r) = ('\'' :: (b ++ ['\''])) ++ r := by simp
    have blanked := blankAmbiguousRanges_string inside ends apart
    rw [split] at blanked ⊢
    refine cuts_region (by simp) ?_ (by simpa using blanked) (ih _)
    rw [← split, regionAt, if_pos (.inl rfl), (toQuote_closed inside ends).2]
    simp
  | @identifier b r inside ends apart _ ih =>
    have split : '"' :: (b ++ '"' :: r) = ('"' :: (b ++ ['"'])) ++ r := by simp
    have blanked := blankAmbiguousRanges_identifier inside ends apart
    rw [split] at blanked ⊢
    refine cuts_region (by simp) ?_ (by simpa using blanked) (ih _)
    rw [← split, regionAt, if_pos (.inr rfl), (toQuote_closed inside ends).2]
    simp
  | @unclosed t whole none =>
    rw [semicolons_of_not_mem none]
    cases t with
    | nil => rfl
    | cons c t =>
      have found : regionAt ((c :: t) ++ []) = some (c :: t).length := by rwa [List.append_nil]
      have pieces := pieces_of_match found (List.cons_ne_nil c t)
      rw [List.append_nil] at pieces
      rw [pieces]
      rfl

theorem length_blankAmbiguousRanges (sql : List Char) :
    (blankAmbiguousRanges sql).length = sql.length := by
  rw [blankAmbiguousRanges, blankQuoted, length_blank (bounded_quoted _), blankQuoted,
    length_blank (bounded_quoted _)]
  exact length_blankComments sql

/-- The statements are cut where the lexer cuts. -/
theorem splitSqlStatements_exact {sql : List Char} (separate : Separate sql) :
    splitSqlStatements sql = statements sql (cuts sql) := by
  rw [splitSqlStatements_eq (length_blankAmbiguousRanges sql), semicolons_eq_cuts separate]
  rfl

theorem splitSqlStatements_exact_literal :
    splitSqlStatements "a;'/* ; */';b".toList =
      statements "a;'/* ; */';b".toList (cuts "a;'/* ; */';b".toList) :=
  splitSqlStatements_exact (.other rfl (.other rfl
    (.string (b := "/* ; */".toList) rfl (by decide) rfl (.other rfl (.other rfl .nil)))))

/-- Two hyphens in a literal pass for a comment. -/
theorem splitSqlStatements_exact_hyphens :
    splitSqlStatements "SELECT '--'; SELECT 2".toList ≠
      statements "SELECT '--'; SELECT 2".toList (cuts "SELECT '--'; SELECT 2".toList) := by
  decide +kernel

/-- However the text is cut, its statements one after the other are the text but for white space,
and none of them is empty. -/
theorem splitSqlStatements_loses_nothing (sql : List Char) :
    visible (splitSqlStatements sql).flatten = visible sql ∧ [] ∉ splitSqlStatements sql := by
  rw [splitSqlStatements_eq (length_blankAmbiguousRanges sql)]
  constructor
  · have increasing := List.pairwise_cons.mpr
      ⟨fun cut member => Nat.zero_lt_of_lt (lt_of_mem_semicolons member),
        semicolons_increasing 0 (blankAmbiguousRanges sql)⟩
    rw [visible_statements, flatten_slices sql increasing, List.drop_zero]
  · simp [statements]

end Main

end Plexichat.Database.Splitter
