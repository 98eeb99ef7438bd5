import Mathlib.Data.List.Infix
import Plexichat.Database.Splitter
import Plexichat.Database.Statements

/-! core/database/dialect: statements are written for SQLite, and converted for PostgreSQL. -/
namespace Plexichat.Database.Dialect

open Matches Splitter Numeral

section Code

/-- What `re.IGNORECASE` takes for a letter of a pattern. -/
def sameLetter (p c : Char) : Bool :=
  c == p || c == p.toUpper || (p == 's' && c == 'ſ') || (p == 'i' && (c == 'ı' || c == 'İ'))

/-- A letter of `query.lower()`; but for these two, what is not ASCII stays so. -/
def lowerLetter (c : Char) : List Char :=
  if c = '\u212a' then ['k'] else if c = 'İ' then ['i', '\u0307'] else [c.toLower]

/-- A letter of `query.upper()`; but for these, what is not ASCII stays so. -/
def upperLetter : Char → List Char
  | 'ß' => ['S', 'S']
  | 'ı' => ['I']
  | 'ŉ' => ['ʼ', 'N']
  | 'ſ' => ['S']
  | '\u01f0' => ['J', '\u030c']
  | '\u1e96' => ['H', '\u0331']
  | '\u1e97' => ['T', '\u0308']
  | '\u1e98' => ['W', '\u030a']
  | '\u1e99' => ['Y', '\u030a']
  | '\u1e9a' => ['A', 'ʾ']
  | 'ﬀ' => ['F', 'F']
  | 'ﬁ' => ['F', 'I']
  | 'ﬂ' => ['F', 'L']
  | 'ﬃ' => ['F', 'F', 'I']
  | 'ﬄ' => ['F', 'F', 'L']
  | 'ﬅ' => ['S', 'T']
  | 'ﬆ' => ['S', 'T']
  | c => [c.toUpper]

def lower (t : List Char) : List Char := t.flatMap lowerLetter

def upper (t : List Char) : List Char := t.flatMap upperLetter

/-- `abs\(random\(\)\)`, ignoring case. -/
def absRandom : List Char → Option Nat := word sameLetter "abs(random())".toList

def floorRandom : List Char := "floor(random() * 9223372036854775807)::bigint".toList

/-- `INSERT OR IGNORE INTO`, ignoring case. -/
def insertOrIgnore : List Char → Option Nat := word sameLetter "insert or ignore into".toList

def insertInto : List Char := "INSERT INTO".toList

def onConflict : List Char := " ON CONFLICT DO NOTHING".toList

def convertAbs (query : List Char) : List Char :=
  if contains (lower query) "abs(random())" then sub absRandom (fun _ => floorRandom) query
  else query

def addClause (query : List Char) : List Char :=
  let query := strip query
  if query.getLast? = some ';' then query.dropLast ++ (onConflict ++ [';'])
  else query ++ onConflict

def mentionsConflict (query : List Char) : Bool :=
  contains (upper query) "ON CONFLICT" || contains (upper query) "RETURNING"

def convertIgnore (query : List Char) : List Char :=
  if contains (upper query) "INSERT OR IGNORE" then
    let query := sub insertOrIgnore (fun _ => insertInto) query
    if mentionsConflict query then query else addClause query
  else query

/-- The first group of the pattern of tokens: `'(?:''|[^'])*'|"(?:""|[^"])*"`. -/
def literal (t : List Char) : Option Nat :=
  match quoted '\'' t with
  | some n => some n
  | none => quoted '"' t

/-- The pattern of tokens: a literal, or `?`, or `%`. -/
def token (t : List Char) : Option Nat :=
  match literal t with
  | some n => some n
  | none => if t.head? = some '?' ∨ t.head? = some '%' then some 1 else none

def double (t : List Char) : List Char := t.flatMap fun c => if c = '%' then ['%', '%'] else [c]

def replace (w : List Char) : List Char :=
  if w = ['?'] then ['%', 's'] else if w = ['%'] then ['%', '%'] else double w

def convertPlaceholders (query : List Char) (engine : Engine) : List Char :=
  match engine with
  | .sqlite => query
  | .postgres => sub token replace (convertIgnore (convertAbs query))

/-- `query.replace("%%", "%")`. -/
def unescapePostgresPercent : List Char → List Char
  | [] => []
  | [c] => [c]
  | c :: d :: t =>
    if c = '%' ∧ d = '%' then '%' :: unescapePostgresPercent t
    else c :: unescapePostgresPercent (d :: t)

end Code

section Statements

inductive Sym where
  | char (c : Char)
  | parameter
  deriving DecidableEq

/-- What a driver makes of a statement: the parameters are bound in order, and `%%` is a per cent
sign. -/
def read : List Char → Option (List Sym)
  | [] => some []
  | [c] => if c = '%' then none else some [.char c]
  | c :: d :: t =>
    if c = '%' then
      if d = '%' then (read t).map (.char '%' :: ·)
      else if d = 's' then (read t).map (.parameter :: ·)
      else none
    else (read (d :: t)).map (.char c :: ·)

def bracketEnd : List Char → Nat
  | [] => 0
  | c :: t => if c = ']' then 1 else bracketEnd t + 1

def regionAt : List Char → Option Nat
  | [] => none
  | c :: t =>
    if c = '`' then some (quotedEnd c t + 1)
    else if c = '[' then some (bracketEnd t + 1)
    else Splitter.regionAt (c :: t)

/-- Each `?` outside of the regions is a parameter. -/
def marks (m : List Char → Option Nat) (t : List Char) : List Sym :=
  (pieces m 0 t).flatMap
    (Sum.elim (fun c => [if c = '?' then .parameter else .char c]) (List.map Sym.char))

def questionsOf : Nat → List (Char ⊕ List Char) → List Nat
  | _, [] => []
  | i, .inl c :: l => if c = '?' then i :: questionsOf (i + 1) l else questionsOf (i + 1) l
  | i, .inr w :: l => questionsOf (i + w.length) l

def questions (m : List Char → Option Nat) (t : List Char) : List Nat := questionsOf 0 (pieces m 0 t)

def isIdChar (c : Char) : Bool := c.isAlphanum || c == '_' || c == '$' || decide (128 ≤ c.toNat)

def keywords (t : List Char) : List (List Char) :=
  (((blank regionAt ' ' t).splitOnP fun c => !isIdChar c).filter fun w => !w.isEmpty).map
    fun w => w.map Char.toUpper

def conflictFollows : List (List Char) → Bool
  | a :: b :: l => (a == "ON".toList && b == "CONFLICT".toList) || conflictFollows (b :: l)
  | _ => false

def hasClause (t : List Char) : Bool :=
  conflictFollows (keywords t) || (keywords t).any fun w => w == "RETURNING".toList

def endless (w : List Char) : Bool :=
  opens '-' '-' w || (opens '/' '*' w && (toStarSlash (w.drop 2)).isNone)

def endOf : Nat → List (Char ⊕ List Char) → Nat
  | i, [] => i
  | i, .inl c :: l => if c = ';' then i else endOf (i + 1) l
  | i, [.inr w] => if endless w then i else i + w.length
  | i, .inr w :: l => endOf (i + w.length) l

def statementEnd (t : List Char) : Nat := endOf 0 (pieces regionAt 0 t)

def insertAt (i : Nat) (w t : List Char) : List Char := t.take i ++ (w ++ t.drop i)

def absConverted (query : List Char) : List Char :=
  outside regionAt (sub absRandom fun _ => floorRandom) query

def ignoreConverted (query : List Char) : List Char :=
  outside regionAt (sub insertOrIgnore fun _ => insertInto) query

def clauseDue (query : List Char) : Bool :=
  decide (ignoreConverted query ≠ query) && !hasClause (ignoreConverted query)

/-- The statement for PostgreSQL, with its `?`. White space around it goes with the clause. -/
def rewritten (query : List Char) : List Char :=
  let query := absConverted query
  if clauseDue query then
    let text := strip (ignoreConverted query)
    insertAt (statementEnd text) onConflict text
  else ignoreConverted query

def Preserved (query : List Char) : Prop :=
  read (convertPlaceholders query .postgres) = some (marks regionAt (rewritten query)) ∧
    (.parameter ∉ marks regionAt (rewritten query) →
      unescapePostgresPercent (convertPlaceholders query .postgres) = rewritten query)

end Statements

section Tokens

variable {c : Char} {m n : List Char → Option Nat} {r t w : List Char}

theorem read_cons_of_ne (other : c ≠ '%') (t : List Char) :
    read (c :: t) = (read t).map (.char c :: ·) := by
  cases t with
  | nil => simp [read, other]
  | cons d t => rw [read, if_neg other]

theorem read_double (w t : List Char) :
    read (double w ++ t) = (read t).map (w.map Sym.char ++ ·) := by
  induction w with
  | nil => simp [double]
  | cons c w ih =>
    rw [double, List.flatMap_cons, ← double, List.append_assoc]
    by_cases percent : c = '%'
    · subst percent
      rw [if_pos rfl]
      show (read (double w ++ t)).map _ = _
      rw [ih, Option.map_map]
      rfl
    · rw [if_neg percent, List.singleton_append, read_cons_of_ne percent, ih, Option.map_map]
      rfl

theorem unescape_double (t : List Char) : unescapePostgresPercent (double t) = t := by
  induction t with
  | nil => rfl
  | cons c t ih =>
    rw [double, List.flatMap_cons, ← double]
    by_cases percent : c = '%'
    · subst percent
      rw [if_pos rfl]
      exact congrArg (List.cons '%') ih
    · rw [if_neg percent, List.singleton_append]
      cases doubled : double t with
      | nil =>
        rw [doubled] at ih
        rw [← ih]
        rfl
      | cons d u => rw [unescapePostgresPercent, if_neg fun both => percent both.1, ← doubled, ih]

theorem marks_other (other : m (c :: t) = none ∨ m (c :: t) = some 0) :
    marks m (c :: t) = (if c = '?' then .parameter else .char c) :: marks m t := by
  rw [marks, pieces_other other]
  rfl

theorem marks_of_match (found : m (w ++ r) = some w.length) (some_element : w ≠ []) :
    marks m (w ++ r) = w.map Sym.char ++ marks m r := by
  rw [marks, pieces_of_match found some_element]
  rfl

theorem literal_opens {k : Nat} (found : literal t = some k) :
    ∃ q u, t = q :: u ∧ (q = '\'' ∨ q = '"') := by
  rw [literal] at found
  cases t with
  | nil => cases found
  | cons c u =>
    refine ⟨c, u, rfl, ?_⟩
    by_contra other
    rw [not_or] at other
    rw [quoted, if_neg other.1, quoted, if_neg other.2] at found
    cases found

theorem bounded_literal : Bounded literal := by
  intro t k found
  rw [literal] at found
  cases first : quoted '\'' t with
  | some i =>
    rw [first] at found
    cases found
    exact bounded_quoted _ t k first
  | none =>
    rw [first] at found
    exact bounded_quoted _ t k found

theorem token_of_literal {k : Nat} (found : literal t = some k) : token t = some k := by
  rw [token, found]

theorem token_other (unquoted : literal (c :: t) = none) :
    token (c :: t) = if c = '?' ∨ c = '%' then some 1 else none := by
  rw [token, unquoted]
  simp

theorem replace_literal (found : literal (w ++ r) = some w.length) (some_element : w ≠ []) :
    replace w = double w := by
  obtain ⟨q, u, same, quote⟩ := literal_opens found
  cases w with
  | nil => exact absurd rfl some_element
  | cons c w =>
    obtain ⟨rfl, _⟩ := List.cons.inj same
    rw [replace, if_neg, if_neg]
    · rintro same
      rw [(List.cons.inj same).1] at quote
      exact absurd quote (by decide)
    · rintro same
      rw [(List.cons.inj same).1] at quote
      exact absurd quote (by decide)

theorem literal_ne_zero : literal t ≠ some 0 := by
  intro zero
  have empty : ∀ q, quoted q t ≠ some 0 := by
    intro q found
    cases t with
    | nil => cases found
    | cons c t =>
      rw [quoted] at found
      split at found
      · obtain ⟨k, _, no⟩ := Option.map_eq_some_iff.mp found
        cases no
      · cases found
  rw [literal] at zero
  cases first : quoted '\'' t with
  | some i =>
    rw [first] at zero
    exact empty _ (first.trans zero)
  | none =>
    rw [first] at zero
    exact empty _ zero

theorem sub_token_other (none : literal (c :: t) = none) :
    sub token replace (c :: t) =
      (if c = '?' then ['%', 's'] else double [c]) ++ sub token replace t := by
  by_cases special : c = '?' ∨ c = '%'
  · have found : token ([c] ++ t) = some [c].length := by
      rw [List.singleton_append, token_other none, if_pos special]
      rfl
    have whole := sub_of_match (f := replace) found (List.cons_ne_nil c [])
    rw [List.singleton_append] at whole
    rw [whole]
    rcases special with rfl | rfl <;> rfl
  · have other := special
    rw [not_or] at other
    rw [sub_of_none (by rw [token_other none, if_neg special]), if_neg other.1]
    simp [double, other.2]

theorem read_sub_token (t : List Char) :
    read (sub token replace t) = some (marks literal t) := by
  induction t using pieces_induction bounded_literal with
  | nil => rfl
  | other c t other ih =>
    rw [sub_token_other (other.resolve_right literal_ne_zero), marks_other other]
    by_cases mark : c = '?'
    · subst mark
      rw [if_pos rfl, if_pos rfl]
      show (read (sub token replace t)).map _ = _
      rw [ih]
      rfl
    · rw [if_neg mark, if_neg mark, read_double, ih]
      rfl
  | found w r some_element found ih =>
    rw [sub_of_match (token_of_literal found) some_element, replace_literal found some_element,
      read_double, ih, marks_of_match found some_element]
    rfl

theorem double_append (a b : List Char) : double (a ++ b) = double a ++ double b :=
  List.flatMap_append

theorem sub_token_eq_double (none : Sym.parameter ∉ marks literal t) :
    sub token replace t = double t := by
  induction t using pieces_induction bounded_literal with
  | nil => rfl
  | other c t other ih =>
    rw [marks_other other, List.mem_cons, not_or] at none
    have plain : c ≠ '?' := by
      rintro rfl
      exact none.1 rfl
    rw [sub_token_other (other.resolve_right literal_ne_zero), if_neg plain, ih none.2,
      ← double_append]
    rfl
  | found w r some_element found ih =>
    rw [marks_of_match found some_element, List.mem_append, not_or] at none
    rw [sub_of_match (token_of_literal found) some_element, replace_literal found some_element,
      ih none.2, ← double_append]

def Sym.letter : Sym → Char
  | .char c => c
  | .parameter => '?'

def Sym.offsets : Nat → List Sym → List Nat
  | _, [] => []
  | i, .char _ :: l => Sym.offsets (i + 1) l
  | i, .parameter :: l => i :: Sym.offsets (i + 1) l

theorem Sym.le_of_mem_offsets {i j : Nat} {l : List Sym} (member : j ∈ Sym.offsets i l) : i ≤ j := by
  induction l generalizing i with
  | nil => cases member
  | cons s l ih =>
    cases s with
    | char c => exact Nat.le_of_succ_le (ih member)
    | parameter =>
      rcases List.mem_cons.mp member with rfl | later
      · exact le_refl _
      · exact Nat.le_of_succ_le (ih later)

theorem Sym.eq_of_offsets {i : Nat} {l l' : List Sym} (text : l.map Sym.letter = l'.map Sym.letter)
    (same : Sym.offsets i l = Sym.offsets i l') : l = l' := by
  induction l generalizing i l' with
  | nil => exact (List.map_eq_nil_iff.mp text.symm).symm
  | cons s l ih =>
    cases l' with
    | nil => cases text
    | cons s' l' =>
      obtain ⟨first, rest⟩ := List.cons.inj text
      cases s with
      | char c =>
        cases s' with
        | char c' =>
          obtain rfl : c = c' := first
          rw [ih rest same]
        | parameter =>
          have later : i ∈ Sym.offsets (i + 1) l := by
            rw [show Sym.offsets (i + 1) l = i :: Sym.offsets (i + 1) l' from same]
            exact List.mem_cons_self
          exact absurd (Sym.le_of_mem_offsets later) (Nat.not_succ_le_self i)
      | parameter =>
        cases s' with
        | char c' =>
          have later : i ∈ Sym.offsets (i + 1) l' := by
            rw [show Sym.offsets (i + 1) l' = i :: Sym.offsets (i + 1) l from same.symm]
            exact List.mem_cons_self
          exact absurd (Sym.le_of_mem_offsets later) (Nat.not_succ_le_self i)
        | parameter => rw [ih rest (List.cons.inj same).2]

theorem letters_marks (bounded : Bounded m) (t : List Char) :
    (marks m t).map Sym.letter = t := by
  induction t using pieces_induction bounded with
  | nil => rfl
  | other c t other ih =>
    rw [marks_other other, List.map_cons, ih]
    by_cases mark : c = '?'
    · rw [if_pos mark, mark]
      rfl
    · rw [if_neg mark]
      rfl
  | found w r some_element found ih =>
    rw [marks_of_match found some_element, List.map_append, ih, List.map_map]
    exact congrArg (· ++ r) (List.map_id w)

theorem Sym.offsets_append (i : Nat) (w : List Char) (l : List Sym) :
    Sym.offsets i (w.map Sym.char ++ l) = Sym.offsets (i + w.length) l := by
  induction w generalizing i with
  | nil => rfl
  | cons c w ih =>
    rw [List.map_cons, List.cons_append, Sym.offsets, ih, List.length_cons]
    congr 1
    omega

theorem offsets_marks (bounded : Bounded m) (t : List Char) (i : Nat) :
    Sym.offsets i (marks m t) = questionsOf i (pieces m 0 t) := by
  induction t using pieces_induction bounded generalizing i with
  | nil => rfl
  | other c t other ih =>
    rw [marks_other other, pieces_other other, questionsOf]
    by_cases mark : c = '?'
    · rw [if_pos mark, if_pos mark, Sym.offsets, ih]
    · rw [if_neg mark, if_neg mark, Sym.offsets, ih]
  | found w r some_element found ih =>
    rw [marks_of_match found some_element, pieces_of_match found some_element, Sym.offsets_append,
      questionsOf, ih]

theorem marks_eq_iff (bounded : Bounded m) (bounded' : Bounded n) (t u : List Char) :
    marks m t = marks n u ↔ t = u ∧ questions m t = questions n u := by
  rw [questions, questions, ← offsets_marks bounded, ← offsets_marks bounded']
  constructor
  · intro same
    refine ⟨?_, congrArg _ same⟩
    rw [← letters_marks bounded t, same, letters_marks bounded' u]
  · rintro ⟨text, places⟩
    refine Sym.eq_of_offsets ?_ places
    rw [letters_marks bounded, letters_marks bounded', text]

end Tokens

section Regions

variable {c : Char} {k : Nat} {r t w : List Char}

def isBorder (c : Char) : Bool := "'\"`[]-/\n".toList.any (· == c)

def isClosing (w r : List Char) : Prop :=
  r = [] ∨ r.head? = some '\n' ∨ ∃ x, w.getLast? = some x ∧ isBorder x = true

def Ends (k : Nat) (t : List Char) : Prop :=
  ∃ w r, t = w ++ r ∧ w.length = k ∧ isClosing w r

theorem ends_length (t : List Char) : Ends t.length t :=
  ⟨t, [], (List.append_nil t).symm, rfl, .inl rfl⟩

theorem ends_border {b : List Char} (border : isBorder c = true) (r : List Char) :
    Ends (b.length + 1) (b ++ c :: r) :=
  ⟨b ++ [c], r, by simp, by simp, .inr (.inr ⟨c, List.getLast?_concat, border⟩)⟩

theorem Ends.cons (ends : Ends k t) (c : Char) : Ends (k + 1) (c :: t) := by
  obtain ⟨w, r, rfl, rfl, close⟩ := ends
  refine ⟨c :: w, r, rfl, rfl, ?_⟩
  rcases close with rest | rest | ⟨x, last, border⟩
  · exact .inl rest
  · exact .inr (.inl rest)
  · refine .inr (.inr ⟨x, ?_, border⟩)
    cases w with
    | nil => cases last
    | cons d w => simpa using last

theorem ends_quotedEnd {q : Char} (border : isBorder q = true) (t : List Char) :
    Ends (quotedEnd q t) t := by
  fun_induction quotedEnd q t with
  | case1 => exact ends_length []
  | case2 c => exact ends_length [c]
  | case3 t ih => exact (ih.cons q).cons q
  | case4 d t other => exact ends_border (b := []) border (d :: t)
  | case5 c d t other ih => exact ih.cons c

theorem ends_bracketEnd (t : List Char) : Ends (bracketEnd t) t := by
  fun_induction bracketEnd t with
  | case1 => exact ends_length []
  | case2 t => exact ends_border (b := []) rfl t
  | case3 c t other ih => exact ih.cons c

theorem ends_comment (t : List Char) : Ends ((toStarSlash t).getD t.length) t := by
  cases found : toStarSlash t with
  | none => exact ends_length t
  | some k =>
    obtain ⟨b, r, rfl, rfl⟩ := toStarSlash_ends found
    have ends := ends_border (c := '/') (b := b ++ ['*']) rfl r
    simpa using ends

theorem ends_line (t : List Char) : Ends (t.takeWhile fun c => c != '\n').length t := by
  refine ⟨_, t.dropWhile fun c => c != '\n', (List.takeWhile_append_dropWhile).symm, rfl, ?_⟩
  have first := List.head?_dropWhile_not (fun c => c != '\n') t
  cases rest : t.dropWhile fun c => c != '\n' with
  | nil => exact .inl rfl
  | cons d u =>
    rw [rest] at first
    have line : d = '\n' := by simpa using first
    exact .inr (.inl (congrArg some line))

theorem regionAt_borders (found : regionAt t = some k) :
    (∃ c ∈ t.head?, isBorder c = true) ∧ Ends k t := by
  cases t with
  | nil => cases found
  | cons c t =>
    rw [regionAt] at found
    split at found
    · rename_i quote
      cases found
      subst quote
      exact ⟨⟨_, rfl, rfl⟩, (ends_quotedEnd rfl t).cons _⟩
    split at found
    · rename_i bracket
      cases found
      subst bracket
      exact ⟨⟨_, rfl, rfl⟩, (ends_bracketEnd t).cons _⟩
    rw [Splitter.regionAt] at found
    split at found
    · rename_i quote
      cases found
      rcases quote with rfl | rfl
      · exact ⟨⟨_, rfl, rfl⟩, (ends_quotedEnd rfl t).cons _⟩
      · exact ⟨⟨_, rfl, rfl⟩, (ends_quotedEnd rfl t).cons _⟩
    split at found
    · rename_i opened
      cases found
      obtain ⟨u, same⟩ := opens_iff.mp opened
      obtain ⟨rfl, rfl⟩ := List.cons.inj same
      exact ⟨⟨_, rfl, rfl⟩, ((ends_comment u).cons _).cons _⟩
    · rw [lineComment] at found
      split at found
      · rename_i opened
        cases found
        obtain ⟨u, same⟩ := opens_iff.mp opened
        obtain ⟨rfl, rfl⟩ := List.cons.inj same
        exact ⟨⟨_, rfl, rfl⟩, ((ends_line u).cons _).cons _⟩
      · cases found

theorem bounded_regionAt : Bounded regionAt := by
  intro t k found
  obtain ⟨_, w, r, rfl, rfl, _⟩ := regionAt_borders found
  simp

def Borderless (ps : List Char) : Prop := ∀ p ∈ ps, ∀ c, isBorder c = true → sameLetter p c = false

theorem splits_sub {ps : List Char} (borderless : Borderless ps) (f : List Char → List Char) :
    Splits regionAt (sub (word sameLetter ps) f) := by
  intro run w r found some_element
  obtain ⟨⟨c, first, border⟩, w', r', split, length, close⟩ := regionAt_borders found
  obtain ⟨rfl, rfl⟩ := List.append_inj split length.symm
  have before : ∀ d ∈ (w ++ r).head?, ∀ p ∈ ps, sameLetter p d = false := by
    intro d inside p member
    rw [Option.mem_unique inside first]
    exact borderless p member c border
  have behind : pieces (word sameLetter ps) 0 (w ++ r) =
      pieces (word sameLetter ps) 0 w ++ pieces (word sameLetter ps) 0 r := by
    rcases close with rfl | line | ⟨x, last, border⟩
    · rw [List.append_nil]
      exact (List.append_nil _).symm
    · refine pieces_word_of_head (fun d inside p member => ?_) w
      rw [Option.mem_unique inside line]
      exact borderless p member '\n' rfl
    · exact pieces_word_of_last last (fun p member => borderless p member x border) r
  rw [sub_append (pieces_word_of_head before run), sub_append behind]

theorem borderless_of_all {ps : List Char}
    (all : (ps.all fun p => "'\"`[]-/\n".toList.all fun c => !sameLetter p c) = true) :
    Borderless ps := by
  intro p member c border
  obtain ⟨d, inside, same⟩ := List.any_eq_true.mp border
  obtain rfl := eq_of_beq same
  have apart := List.all_eq_true.mp (List.all_eq_true.mp all p member) d inside
  simpa using apart

theorem splits_absRandom (f : List Char → List Char) : Splits regionAt (sub absRandom f) :=
  splits_sub (borderless_of_all (by decide)) f

theorem splits_insertOrIgnore (f : List Char → List Char) :
    Splits regionAt (sub insertOrIgnore f) :=
  splits_sub (borderless_of_all (by decide)) f

end Regions

section Clause

variable {weight : Char → Int} {i j : Nat} {t w : List Char}

def textEnd (t : List Char) : Nat := if t.getLast? = some ';' then t.length - 1 else t.length

theorem textEnd_le (t : List Char) : textEnd t ≤ t.length := by
  rw [textEnd]
  split
  · exact Nat.sub_le _ _
  · exact le_refl _

theorem addClause_eq (t : List Char) :
    addClause t = insertAt (textEnd (strip t)) onConflict (strip t) := by
  rw [addClause, textEnd, insertAt]
  split
  · rename_i last
    obtain ⟨u, split⟩ := List.getLast?_eq_some_iff.mp last
    rw [split]
    simp
  · simp

theorem measure_insertAt (i : Nat) (w t : List Char) :
    measure weight (insertAt i w t) = measure weight t + measure weight w := by
  have whole := congrArg (measure weight) (List.take_append_drop i t)
  rw [measure_append] at whole
  rw [insertAt, measure_append, measure_append, ← whole]
  omega

theorem measure_strip (light : ∀ c, isSpace c = true → weight c = 0) (t : List Char) :
    measure weight (strip t) = measure weight t := by
  obtain ⟨before, after, split, left, right⟩ := trim_split isSpace t
  have whole := congrArg (measure weight) split
  rw [measure_append, measure_append, measure_eq_zero fun c member => light c (left c member),
    measure_eq_zero fun c member => light c (right c member)] at whole
  rw [strip, whole]
  omega

/-- A word that does not overlap itself is put into a text without it in two ways. -/
theorem not_lt_of_insertAt (absent : ¬w <:+: t)
    (primitive : ∀ k, 0 < k → k < w.length → w ++ w.take k ≠ w.take k ++ w) (fits : j ≤ t.length)
    (same : insertAt i w t = insertAt j w t) : ¬i < j := by
  intro before
  obtain ⟨m, front, middle, inside, long⟩ : ∃ m, t.take i ++ m = t.take j ∧
      m ++ t.drop j = t.drop i ∧ m <:+: t ∧ m.length = j - i := by
    refine ⟨(t.drop i).take (j - i), ?_, ?_, ?_, ?_⟩
    · rw [← List.take_add, Nat.add_sub_cancel' (Nat.le_of_lt before)]
    · have rest := List.take_append_drop (j - i) (t.drop i)
      rwa [List.drop_drop, Nat.add_sub_cancel' (Nat.le_of_lt before)] at rest
    · exact (List.take_prefix _ _).isInfix.trans (List.drop_suffix _ _).isInfix
    · rw [List.length_take, List.length_drop]
      omega
  rw [insertAt, insertAt, ← front, ← middle, List.append_assoc] at same
  have swap : w ++ m = m ++ w := by
    have rest := List.append_cancel_left same
    rw [← List.append_assoc, ← List.append_assoc] at rest
    exact List.append_cancel_right rest
  rcases Nat.lt_or_ge m.length w.length with short | longer
  · have whole : m <+: w ++ m := swap ▸ List.prefix_append m w
    have start : m <+: w :=
      List.prefix_of_prefix_length_le whole (List.prefix_append w m) (Nat.le_of_lt short)
    have taken := List.prefix_iff_eq_take.mp start
    rw [taken] at swap
    exact primitive m.length (by omega) short swap
  · have start : w <+: m :=
      List.prefix_of_prefix_length_le (List.prefix_append w m) (swap ▸ List.prefix_append m w) longer
    exact absent (start.isInfix.trans inside)

theorem insertAt_injective (absent : ¬w <:+: t)
    (primitive : ∀ k, 0 < k → k < w.length → w ++ w.take k ≠ w.take k ++ w) (left : i ≤ t.length)
    (right : j ≤ t.length) (same : insertAt i w t = insertAt j w t) : i = j :=
  le_antisymm (Nat.not_lt.mp (not_lt_of_insertAt absent primitive left same.symm))
    (Nat.not_lt.mp (not_lt_of_insertAt absent primitive right same))

theorem onConflict_primitive (k : Nat) (some_letter : 0 < k) (short : k < onConflict.length) :
    onConflict ++ onConflict.take k ≠ onConflict.take k ++ onConflict := by
  have all : ∀ k < onConflict.length, 0 < k →
      onConflict ++ onConflict.take k ≠ onConflict.take k ++ onConflict := by
    decide +kernel
  exact all k short some_letter

theorem endOf_le (i : Nat) (l : List (Char ⊕ List Char)) :
    endOf i l ≤ i + (l.flatMap (Sum.elim (fun c => [c]) id)).length := by
  fun_induction endOf i l with
  | case1 i => exact Nat.le_add_right i _
  | case2 i l => exact Nat.le_add_right i _
  | case3 i c l other ih =>
    rw [List.flatMap_cons, List.length_append, Sum.elim_inl, List.length_singleton]
    omega
  | case4 i w ended => exact Nat.le_add_right i _
  | case5 i w ended => simp
  | case6 i w l some_rest ih =>
    rw [List.flatMap_cons, List.length_append, Sum.elim_inr, id]
    omega

theorem statementEnd_le (t : List Char) : statementEnd t ≤ t.length := by
  have whole : (pieces regionAt 0 t).flatMap (Sum.elim (fun c => [c]) id) = t := by
    induction t using pieces_induction bounded_regionAt with
    | nil => rfl
    | other c t other ih =>
      rw [pieces_other other, List.flatMap_cons, ih]
      rfl
    | found w r some_element found ih =>
      rw [pieces_of_match found some_element, List.flatMap_cons, ih]
      rfl
  have le := endOf_le 0 (pieces regionAt 0 t)
  rw [whole] at le
  exact le.trans (by omega)

theorem absent_of_mentionsConflict (silent : mentionsConflict t = false) :
    ¬onConflict <:+: strip t := by
  rintro ⟨a, b, split⟩
  obtain ⟨before, after, whole, _⟩ := trim_split isSpace t
  rw [mentionsConflict, Bool.or_eq_false_iff] at silent
  refine of_decide_eq_false silent.1 ⟨upper (before ++ a) ++ [' '], upper " DO NOTHING".toList ++
    upper (b ++ after), ?_⟩
  have text : t = (before ++ a) ++ (onConflict ++ (b ++ after)) := by
    rw [whole, ← strip, ← split]
    simp
  have mentioned : upper onConflict = ' ' :: "ON CONFLICT".toList ++ upper " DO NOTHING".toList := by
    decide +kernel
  have apart : ∀ x y, upper (x ++ y) = upper x ++ upper y := fun x y => List.flatMap_append
  rw [text, apart (before ++ a), apart onConflict, mentioned]
  simp

end Clause

section Main

variable {ps : List Char} {t query : List Char}

def weigh (letters : List Char) (n : Int) (c : Char) : Int := if letters.any (· == c) then n else 0

theorem weigh_light (letters : List Char) (visible : (letters.all fun c => !isSpace c) = true)
    (n : Int) : ∀ c, isSpace c = true → weigh letters n c = 0 := by
  intro c space
  rw [weigh, if_neg]
  intro member
  obtain ⟨d, inside, same⟩ := List.any_eq_true.mp member
  obtain rfl := eq_of_beq same
  simpa [space] using List.all_eq_true.mp visible d inside

theorem alike_of_all {weight : Char → Int} (all : (ps.all fun p =>
      [p.toUpper, 'ſ', 'ı', 'İ'].all fun c => !sameLetter p c || weight c == weight p) = true) :
    ∀ p ∈ ps, ∀ c, sameLetter p c = true → weight c = weight p := by
  intro p member c same
  have spelled : c = p ∨ c ∈ [p.toUpper, 'ſ', 'ı', 'İ'] := by
    simp only [sameLetter, Bool.or_eq_true, Bool.and_eq_true, beq_iff_eq] at same
    simp only [List.mem_cons, List.not_mem_nil]
    tauto
  rcases spelled with rfl | listed
  · rfl
  · have weighed := List.all_eq_true.mp (List.all_eq_true.mp all p member) c listed
    rw [same] at weighed
    exact eq_of_beq weighed

def appends (query : List Char) : Bool :=
  contains (upper query) "INSERT OR IGNORE" &&
    !mentionsConflict (sub insertOrIgnore (fun _ => insertInto) query)

def ignoreReplaced (query : List Char) : List Char :=
  if contains (upper query) "INSERT OR IGNORE" then sub insertOrIgnore (fun _ => insertInto) query
  else query

theorem convertIgnore_eq (query : List Char) : convertIgnore query =
    if appends query then addClause (ignoreReplaced query) else ignoreReplaced query := by
  rw [convertIgnore, appends, ignoreReplaced]
  cases contains (upper query) "INSERT OR IGNORE" with
  | false => rfl
  | true =>
    rw [if_pos rfl, if_pos rfl, Bool.true_and]
    dsimp only
    cases mentionsConflict (sub insertOrIgnore (fun _ => insertInto) query) with
    | false => rfl
    | true => rfl

/-- The replaced words stand in no region, the clause is appended where it is due and where the
statement ends, and what the code takes for a literal holds the `?` that regions do. -/
structure Plain (query : List Char) : Prop where
  random : Placed regionAt absRandom (contains (lower query) "abs(random())") query
  ignore : Placed regionAt insertOrIgnore
    (contains (upper (absConverted query)) "INSERT OR IGNORE") (absConverted query)
  clause : appends (absConverted query) = clauseDue (absConverted query)
  last : clauseDue (absConverted query) = true →
    statementEnd (strip (ignoreConverted (absConverted query))) =
      textEnd (strip (ignoreConverted (absConverted query)))
  questions : questions literal (rewritten query) = questions regionAt (rewritten query)

theorem absConverted_of_placed
    (placed : Placed regionAt absRandom (contains (lower query) "abs(random())") query) :
    convertAbs query = absConverted query :=
  (outside_of_placed bounded_regionAt bounded_word (splits_absRandom _) placed).symm

theorem ignoreConverted_of_placed
    (placed : Placed regionAt insertOrIgnore (contains (upper query) "INSERT OR IGNORE") query) :
    ignoreReplaced query = ignoreConverted query :=
  (outside_of_placed bounded_regionAt bounded_word (splits_insertOrIgnore _) placed).symm

section Weights

variable {weight : Char → Int} (light : ∀ c, isSpace c = true → weight c = 0)
include light

theorem measure_convertIgnore (query : List Char) : measure weight (convertIgnore query) =
    measure weight (ignoreReplaced query) +
      if appends query then measure weight onConflict else 0 := by
  rw [convertIgnore_eq]
  cases appends query with
  | true =>
    rw [if_pos rfl, if_pos rfl, addClause_eq, measure_insertAt, measure_strip light]
  | false => simp

theorem measure_rewritten (query : List Char) : measure weight (rewritten query) =
    measure weight (ignoreConverted (absConverted query)) +
      if clauseDue (absConverted query) then measure weight onConflict else 0 := by
  rw [rewritten]
  cases clauseDue (absConverted query) with
  | true => rw [if_pos rfl, if_pos rfl, measure_insertAt, measure_strip light]
  | false => simp

end Weights

theorem random_of_same (same : convertIgnore (convertAbs query) = rewritten query) :
    Placed regionAt absRandom (contains (lower query) "abs(random())") query := by
  have light := weigh_light [':'] (by decide) 1
  have keeps : Keeps insertOrIgnore (fun _ => insertInto) (weigh [':'] 1) :=
    keeps_word (alike_of_all (by decide +kernel)) (by decide +kernel)
  have raises : Raises absRandom (fun _ => floorRandom) (weigh [':'] 1) :=
    raises_word (alike_of_all (by decide +kernel)) (by decide +kernel)
  have clause : measure (weigh [':'] 1) onConflict = 0 := by decide +kernel
  have code : ∀ u, measure (weigh [':'] 1) (ignoreReplaced u) = measure (weigh [':'] 1) u := by
    intro u
    rw [ignoreReplaced]
    split
    · exact measure_sub bounded_word keeps u
    · rfl
  have spec : ∀ u, measure (weigh [':'] 1) (ignoreConverted u) = measure (weigh [':'] 1) u :=
    measure_outside bounded_regionAt bounded_word keeps
  have weights := congrArg (measure (weigh [':'] 1)) same
  rw [measure_convertIgnore light, measure_rewritten light, code, spec, clause, ite_self,
    ite_self] at weights
  exact placed_of_measure bounded_regionAt bounded_word (splits_absRandom _) raises
    (add_right_cancel weights)

theorem ignore_of_same (same : convertIgnore (absConverted query) = rewritten query) :
    Placed regionAt insertOrIgnore (contains (upper (absConverted query)) "INSERT OR IGNORE")
      (absConverted query) := by
  have light := weigh_light ['r', 'R'] (by decide) (-1)
  have raises : Raises insertOrIgnore (fun _ => insertInto) (weigh ['r', 'R'] (-1)) :=
    raises_word (alike_of_all (by decide +kernel)) (by decide +kernel)
  have clause : measure (weigh ['r', 'R'] (-1)) onConflict = 0 := by decide +kernel
  have weights := congrArg (measure (weigh ['r', 'R'] (-1))) same
  rw [measure_convertIgnore light, measure_rewritten light, clause, ite_self, ite_self] at weights
  exact placed_of_measure bounded_regionAt bounded_word (splits_insertOrIgnore _) raises
    (add_right_cancel weights)

theorem clause_of_same (same : convertIgnore (absConverted query) = rewritten query)
    (replaced : ignoreReplaced (absConverted query) = ignoreConverted (absConverted query)) :
    appends (absConverted query) = clauseDue (absConverted query) := by
  have light := weigh_light ['C'] (by decide) 1
  have clause : measure (weigh ['C'] 1) onConflict = 2 := by decide +kernel
  have weights := congrArg (measure (weigh ['C'] 1)) same
  rw [measure_convertIgnore light, measure_rewritten light, clause, replaced] at weights
  have counts := Int.add_left_cancel weights
  cases appended : appends (absConverted query) with
  | true =>
    cases due : clauseDue (absConverted query) with
    | true => rfl
    | false =>
      rw [appended, due] at counts
      exact absurd counts (by decide)
  | false =>
    cases due : clauseDue (absConverted query) with
    | true =>
      rw [appended, due] at counts
      exact absurd counts (by decide)
    | false => rfl

theorem last_of_same (same : convertIgnore (absConverted query) = rewritten query)
    (replaced : ignoreReplaced (absConverted query) = ignoreConverted (absConverted query))
    (appended : appends (absConverted query) = true)
    (due : clauseDue (absConverted query) = true) :
    statementEnd (strip (ignoreConverted (absConverted query))) =
      textEnd (strip (ignoreConverted (absConverted query))) := by
  have silent : mentionsConflict (ignoreReplaced (absConverted query)) = false := by
    rw [appends, Bool.and_eq_true] at appended
    rw [ignoreReplaced, if_pos appended.1]
    simpa using appended.2
  rw [replaced] at silent
  rw [convertIgnore_eq, if_pos appended, addClause_eq, replaced, rewritten, if_pos due] at same
  exact (insertAt_injective (absent_of_mentionsConflict silent) onConflict_primitive (textEnd_le _)
    (statementEnd_le _) same).symm

theorem convert_eq_rewritten_iff (query : List Char) :
    convertIgnore (convertAbs query) = rewritten query ↔
      Placed regionAt absRandom (contains (lower query) "abs(random())") query ∧
      Placed regionAt insertOrIgnore (contains (upper (absConverted query)) "INSERT OR IGNORE")
        (absConverted query) ∧
      appends (absConverted query) = clauseDue (absConverted query) ∧
      (clauseDue (absConverted query) = true →
        statementEnd (strip (ignoreConverted (absConverted query))) =
          textEnd (strip (ignoreConverted (absConverted query)))) := by
  constructor
  · intro same
    have random := random_of_same same
    rw [absConverted_of_placed random] at same
    have ignore := ignore_of_same same
    have replaced := ignoreConverted_of_placed ignore
    have clause := clause_of_same same replaced
    exact ⟨random, ignore, clause, fun due => last_of_same same replaced (clause.trans due) due⟩
  · rintro ⟨random, ignore, clause, last⟩
    rw [absConverted_of_placed random, convertIgnore_eq, ignoreConverted_of_placed ignore, clause,
      rewritten]
    dsimp only
    cases due : clauseDue (absConverted query) with
    | true =>
      rw [if_pos rfl, if_pos rfl, addClause_eq, ← last due]
    | false => rw [if_neg Bool.false_ne_true, if_neg Bool.false_ne_true]

theorem read_convertPlaceholders_iff (query : List Char) :
    read (convertPlaceholders query .postgres) = some (marks regionAt (rewritten query)) ↔
      Plain query := by
  rw [convertPlaceholders, read_sub_token, Option.some.injEq,
    marks_eq_iff bounded_literal bounded_regionAt, convert_eq_rewritten_iff]
  constructor
  · rintro ⟨⟨random, ignore, clause, last⟩, places⟩
    have same := (convert_eq_rewritten_iff query).mpr ⟨random, ignore, clause, last⟩
    rw [same] at places
    exact ⟨random, ignore, clause, last, places⟩
  · intro plain
    have parts := And.intro plain.random (And.intro plain.ignore (And.intro plain.clause plain.last))
    refine ⟨parts, ?_⟩
    rw [(convert_eq_rewritten_iff query).mpr parts]
    exact plain.questions

/-- The conversion preserves the plain statements, and no others. -/
theorem convertPlaceholders_preserved_iff (query : List Char) :
    Preserved query ↔ Plain query := by
  rw [Preserved, read_convertPlaceholders_iff]
  refine and_iff_left_of_imp fun plain none => ?_
  have parts := And.intro plain.random (And.intro plain.ignore (And.intro plain.clause plain.last))
  have same := (convert_eq_rewritten_iff query).mpr parts
  have read : marks literal (rewritten query) = marks regionAt (rewritten query) :=
    (marks_eq_iff bounded_literal bounded_regionAt _ _).mpr ⟨rfl, plain.questions⟩
  rw [convertPlaceholders, same, sub_token_eq_double (read ▸ none), unescape_double]

example : read (convertPlaceholders "insert or ignore into t values (?, '50%?')".toList .postgres) =
    some ("INSERT INTO t values (".toList.map Sym.char ++ [.parameter] ++
      ", '50%?') ON CONFLICT DO NOTHING".toList.map Sym.char) := by
  decide +kernel

/-- A question in a comment asks for a parameter. -/
theorem convertPlaceholders_comment :
    ¬Preserved "SELECT id FROM users WHERE name = ? -- why?".toList := by
  rintro ⟨same, _⟩
  revert same
  decide +kernel

end Main

end Plexichat.Database.Dialect
