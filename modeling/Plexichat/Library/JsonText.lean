import Plexichat.Library.Json

/-! The strings and numbers that json.dumps writes are read back by json.loads. -/
namespace Json

section Strings

theorem hexValue_digitChar {d : Nat} (small : d < 16) : hexValue (Nat.digitChar d) = some d := by
  have all : ∀ d : Fin 16, hexValue (Nat.digitChar d) = some d.val := by decide
  exact all ⟨d, small⟩

theorem hexUnit_digits {n : Nat} (small : n < 65536) :
    hexUnit (Nat.digitChar (n / 4096 % 16)) (Nat.digitChar (n / 256 % 16))
      (Nat.digitChar (n / 16 % 16)) (Nat.digitChar (n % 16)) = some n := by
  unfold hexUnit
  rw [hexValue_digitChar (Nat.mod_lt _ (by decide)), hexValue_digitChar (Nat.mod_lt _ (by decide)),
    hexValue_digitChar (Nat.mod_lt _ (by decide)), hexValue_digitChar (Nat.mod_lt _ (by decide))]
  show some _ = some n
  congr 1
  omega

def halves : Point → Str
  | .char c =>
    if c.toNat < 0x10000 then [.char c]
    else [unit (0xd800 + (c.toNat - 0x10000) / 1024), unit (0xdc00 + (c.toNat - 0x10000) % 1024)]
  | p => [p]

theorem points_escapeUnit {n : Nat} (small : n < 65536) (rest : List Char) :
    points (escapeUnit n ++ rest) = (points rest).map fun x => (unit n :: x.1, x.2) := by
  show points ('\\' :: 'u' :: _ :: _ :: _ :: _ :: rest) = _
  rw [points, hexUnit_digits small]
  cases points rest <;> rfl

theorem char_lt (c : Char) : c.toNat < 0x110000 ∧ ¬(0xd800 ≤ c.toNat ∧ c.toNat < 0xe000) := by
  have valid : c.toNat < 0xd800 ∨ (0xdfff < c.toNat ∧ c.toNat < 0x110000) := c.valid
  omega

theorem unit_char (c : Char) : unit c.toNat = .char c := by
  have range := char_lt c
  unfold unit
  rw [dif_neg (by omega), dif_neg (by omega), Char.ofNat_toNat]

theorem unit_code_high (n : Fin 1024) : unit (Point.high n).code = .high n := by
  have small := n.isLt
  show unit (0xd800 + n) = _
  unfold unit
  rw [dif_pos (by omega)]
  simp

theorem unit_code_low (n : Fin 1024) : unit (Point.low n).code = .low n := by
  have small := n.isLt
  show unit (0xdc00 + n) = _
  unfold unit
  rw [dif_neg (by omega), dif_pos (by omega)]
  simp

theorem points_plain {c : Char} (quote : c ≠ '"') (slash : c ≠ '\\') (printable : 32 ≤ c.toNat)
    (rest : List Char) :
    points (c :: rest) = (points rest).map fun x => (.char c :: x.1, x.2) := by
  rw [points.eq_5 _ _ (by simpa using quote) (by simp [slash]) (by simp [slash])]
  rw [if_neg (by omega)]
  cases points rest <;> rfl

theorem points_short {e c : Char} (known : unescape e = some c) (rest : List Char) :
    points ('\\' :: e :: rest) = (points rest).map fun x => (.char c :: x.1, x.2) := by
  have apart : e ≠ 'u' := by
    rintro rfl
    cases known
  rw [points.eq_4 _ _ (by simp [apart]), known]
  cases points rest <;> rfl

theorem halves_ascii {c : Char} (small : c.toNat < 0x10000) : halves (.char c) = [.char c] :=
  if_pos small

theorem points_escapeChar (c : Char) (rest : List Char) :
    points (escapeChar c ++ rest) = (points rest).map fun x => (halves (.char c) ++ x.1, x.2) := by
  have range := char_lt c
  unfold escapeChar
  by_cases quote : c = '"'
  · subst quote
    exact points_short (by rfl) rest
  by_cases slash : c = '\\'
  · subst slash
    exact points_short (by rfl) rest
  rw [if_neg quote, if_neg slash]
  split
  case isTrue line =>
    subst line
    exact points_short (by rfl) rest
  split
  case isTrue back =>
    subst back
    exact points_short (by rfl) rest
  split
  case isTrue tab =>
    subst tab
    exact points_short (by rfl) rest
  split
  case isTrue feed =>
    have same : Char.ofNat 12 = c := by rw [← feed, Char.ofNat_toNat]
    subst same
    exact points_short (by rfl) rest
  split
  case isTrue bell =>
    have same : Char.ofNat 8 = c := by rw [← bell, Char.ofNat_toNat]
    subst same
    exact points_short (by rfl) rest
  split
  case isTrue printable =>
    rw [halves_ascii (by omega)]
    exact points_plain quote slash printable.1 rest
  split
  case isTrue small =>
    rw [halves_ascii small, points_escapeUnit small, unit_char]
    rfl
  case isFalse large =>
    rw [List.append_assoc, points_escapeUnit (by omega), points_escapeUnit (by omega),
      Option.map_map]
    simp only [halves, if_neg large]
    rfl

theorem points_escapePoint (p : Point) (rest : List Char) :
    points (escapePoint p ++ rest) = (points rest).map fun x => (halves p ++ x.1, x.2) := by
  cases p with
  | char c => exact points_escapeChar c rest
  | high n =>
    have small := n.isLt
    show points (escapeUnit (Point.high n).code ++ rest) = _
    rw [points_escapeUnit (by show 0xd800 + n.val < _; omega), unit_code_high]
    rfl
  | low n =>
    have small := n.isLt
    show points (escapeUnit (Point.low n).code ++ rest) = _
    rw [points_escapeUnit (by show 0xdc00 + n.val < _; omega), unit_code_low]
    rfl

theorem points_quoted (s : Str) (rest : List Char) :
    points (s.flatMap escapePoint ++ '"' :: rest) = some (s.flatMap halves, rest) := by
  induction s with
  | nil => rfl
  | cons p s ih =>
    rw [List.flatMap_cons, List.append_assoc, points_escapePoint, ih]
    rfl

theorem unit_high {n : Nat} (h : n < 1024) : unit (0xd800 + n) = .high ⟨n, h⟩ :=
  unit_code_high ⟨n, h⟩

theorem unit_low {n : Nat} (h : n < 1024) : unit (0xdc00 + n) = .low ⟨n, h⟩ :=
  unit_code_low ⟨n, h⟩

theorem join_char (c : Char) (s : Str) : join (.char c :: s) = .char c :: join s := by
  rw [join.eq_2 _ _ (by simp)]

theorem join_low (n : Fin 1024) (s : Str) : join (.low n :: s) = .low n :: join s := by
  rw [join.eq_2 _ _ (by simp)]

theorem join_high (n : Fin 1024) {s : Str} (apart : ∀ l s', s ≠ .low l :: s') :
    join (.high n :: s) = .high n :: join s := by
  rw [join.eq_2 _ _ fun h l s' _ => apart l s']

theorem halves_ne_low (s : Str) (apart : ∀ l s', s ≠ .low l :: s') (l : Fin 1024) (s' : Str) :
    s.flatMap halves ≠ .low l :: s' := by
  cases s with
  | nil => exact fun h => by cases h
  | cons p s =>
    cases p with
    | char c =>
      have range := char_lt c
      rw [List.flatMap_cons, halves]
      split
      · exact fun h => by cases h
      · rw [unit_high (by omega)]
        exact fun h => by cases h
    | high n => exact fun h => by cases h
    | low n => exact absurd rfl (apart n s)

theorem join_halves (s : Str) : join (s.flatMap halves) = join s := by
  fun_induction join s with
  | case1 h l s ih =>
    show join (.high h :: .low l :: s.flatMap halves) = _
    rw [join, ih]
  | case2 p s apart ih =>
    cases p with
    | char c =>
      have range := char_lt c
      rw [List.flatMap_cons, halves]
      split
      · show join (.char c :: s.flatMap halves) = _
        rw [join_char, ih]
      · rename_i large
        have whole : 0x10000 + (c.toNat - 0x10000) / 1024 * 1024 + (c.toNat - 0x10000) % 1024 =
            c.toNat := by omega
        rw [unit_high (by omega), unit_low (by omega)]
        show join (.high _ :: .low _ :: s.flatMap halves) = _
        rw [join, ih, whole, Char.ofNat_toNat]
    | high n =>
      have next : ∀ l s', s ≠ .low l :: s' := fun l s' same => apart n l s' rfl same
      show join (.high n :: s.flatMap halves) = _
      rw [join_high n (halves_ne_low s next), ih]
    | low n =>
      show join (.low n :: s.flatMap halves) = _
      rw [join_low, ih]
  | case3 => rfl

/-- A string that is written is read with its surrogates joined, -/
theorem string_quoted (s : Str) (rest : List Char) :
    string (s.flatMap escapePoint ++ '"' :: rest) = .ok (join s, rest) := by
  rw [string, points_quoted]
  show Except.ok (join (s.flatMap halves), rest) = _
  rw [join_halves]

theorem toNat_ofNat {n : Nat} (valid : n.isValidChar) : (Char.ofNat n).toNat = n := by
  unfold Char.ofNat
  rw [dif_pos valid]
  rfl

theorem escapeChar_pair (h l : Fin 1024) :
    escapeChar (Char.ofNat (0x10000 + h * 1024 + l)) =
      escapePoint (.high h) ++ escapePoint (.low l) := by
  have high := h.isLt
  have low := l.isLt
  have code : (Char.ofNat (0x10000 + h * 1024 + l)).toNat = 0x10000 + h * 1024 + l :=
    toNat_ofNat (.inr ⟨by omega, by omega⟩)
  have first : 0xd800 + (0x10000 + h.val * 1024 + l.val - 0x10000) / 1024 = 0xd800 + h := by omega
  have second : 0xdc00 + (0x10000 + h.val * 1024 + l.val - 0x10000) % 1024 = 0xdc00 + l := by omega
  generalize Char.ofNat (0x10000 + h * 1024 + l) = c at code
  have apart : ∀ d : Char, d.toNat < 0x10000 → c ≠ d := by
    rintro d small rfl
    omega
  unfold escapeChar
  rw [if_neg (apart _ (by decide)), if_neg (apart _ (by decide)), if_neg (apart _ (by decide)),
    if_neg (apart _ (by decide)), if_neg (apart _ (by decide)), if_neg (by omega),
    if_neg (by omega), if_neg (by omega), if_neg (by omega), code, first, second]
  rfl

/-- and joining them does not change what is written. -/
theorem quoted_join (s : Str) : quoted (join s) = quoted s := by
  have same : (join s).flatMap escapePoint = s.flatMap escapePoint := by
    fun_induction join s with
    | case1 h l s ih =>
      rw [List.flatMap_cons, ih, List.flatMap_cons, List.flatMap_cons, ← List.append_assoc]
      exact congrArg (· ++ _) (escapeChar_pair h l)
    | case2 p s apart ih => rw [List.flatMap_cons, ih, List.flatMap_cons]
    | case3 => rfl
  rw [quoted, quotedBy, same, quoted, quotedBy]

theorem join_join (s : Str) : join (join s) = join s := by
  have once := string_quoted s []
  have twice := string_quoted (join s) []
  have same : (join s).flatMap escapePoint ++ ['"'] = s.flatMap escapePoint ++ ['"'] :=
    (List.cons.inj (quoted_join s)).2
  rw [same, once] at twice
  exact (congrArg Prod.fst (Except.ok.inj twice)).symm

end Strings

section Numbers

def Free (p : Char → Bool) (t : List Char) : Prop := ∀ c ∈ t.head?, p c = false

def continues (c : Char) : Bool := c.isDigit || c == '.' || c == 'e' || c == 'E'

def Digits (ds : List Char) : Prop := ds ≠ [] ∧ ∀ d ∈ ds, d.isDigit = true

def Whole (w : List Char) : Prop := w = ['0'] ∨ (w.head? ≠ some '0' ∧ Digits w)

def Fraction (f : List Char) : Prop := f = [] ∨ ∃ ds, Digits ds ∧ f = '.' :: ds

def Exponent (e : List Char) : Prop :=
  e = [] ∨ ∃ sign ds, (sign = '+' ∨ sign = '-') ∧ Digits ds ∧ e = 'e' :: sign :: ds

variable {p : Char → Bool} {ds w f e rest : List Char}

theorem Free.takeWhile (free : Free p rest) (all : ∀ d ∈ ds, p d = true) :
    (ds ++ rest).takeWhile p = ds := by
  rw [List.takeWhile_append_of_pos all]
  cases rest with
  | nil => simp
  | cons c rest => simp [free c rfl]

theorem Free.dropWhile (free : Free p rest) (all : ∀ d ∈ ds, p d = true) :
    (ds ++ rest).dropWhile p = rest := by
  rw [List.dropWhile_append_of_pos all]
  cases rest with
  | nil => rfl
  | cons c rest => simp [free c rfl]

theorem Free.of_continues {q : Char → Bool} (free : Free continues rest)
    (some_of : ∀ c, q c = true → continues c = true) : Free q rest := by
  intro c first
  have stops := free c first
  cases known : q c with
  | false => rfl
  | true => rw [some_of c known] at stops; cases stops

theorem Free.cons {c : Char} (other : p c = false) : Free p (c :: rest) := by
  intro d first
  cases first
  exact other

theorem Free.fraction {q : Char → Bool} (dot : q '.' = false) (free : Free q rest)
    (fraction : Fraction f) : Free q (f ++ rest) := by
  rcases fraction with rfl | ⟨ds, -, rfl⟩
  · exact free
  · exact .cons dot

theorem Free.exponent {q : Char → Bool} (mark : q 'e' = false) (free : Free q rest)
    (exponent : Exponent e) : Free q (e ++ rest) := by
  rcases exponent with rfl | ⟨sign, ds, -, -, rfl⟩
  · exact free
  · exact .cons mark

theorem whole_append (shape : Whole w) (free : Free Char.isDigit rest) :
    whole (w ++ rest) = some (w, rest) := by
  rcases shape with rfl | ⟨first, some_digit, all⟩
  · rfl
  · cases w with
    | nil => exact absurd rfl some_digit
    | cons c ds =>
      have nonzero : c ≠ '0' := fun zero => first (congrArg some zero)
      have others : ∀ d ∈ ds, d.isDigit = true := fun d member => all d (List.mem_cons_of_mem c member)
      rw [List.cons_append, whole.eq_2 _ _ nonzero, if_pos (all c List.mem_cons_self),
        free.takeWhile others, free.dropWhile others]

theorem fraction_append (shape : Fraction f) (free : Free Char.isDigit rest)
    (ends : f = [] → Free (· == '.') rest) : fraction (f ++ rest) = (f, rest) := by
  rcases shape with rfl | ⟨ds, ⟨some_digit, all⟩, rfl⟩
  · cases rest with
    | nil => rfl
    | cons c rest =>
      have other : c ≠ '.' := by simpa using ends rfl c rfl
      rw [List.nil_append, fraction.eq_2 _ (by simp [other])]
  · cases ds with
    | nil => exact absurd rfl some_digit
    | cons c ds =>
      have others : ∀ d ∈ ds, d.isDigit = true := fun d member => all d (List.mem_cons_of_mem c member)
      show fraction ('.' :: c :: (ds ++ rest)) = _
      rw [fraction, if_pos (all c List.mem_cons_self), free.takeWhile others, free.dropWhile others]

theorem exponentDigits_append (lead t : List Char) (digits : Digits ds)
    (free : Free Char.isDigit rest) : exponentDigits lead t (ds ++ rest) = (lead ++ ds, rest) := by
  obtain ⟨some_digit, all⟩ := digits
  cases ds with
  | nil => exact absurd rfl some_digit
  | cons c ds =>
    have others : ∀ d ∈ ds, d.isDigit = true := fun d member => all d (List.mem_cons_of_mem c member)
    rw [List.cons_append, exponentDigits, if_pos (all c List.mem_cons_self), free.takeWhile others,
      free.dropWhile others]

theorem exponent_append (shape : Exponent e) (free : Free continues rest) :
    exponent (e ++ rest) = (e, rest) := by
  have digit : Free Char.isDigit rest := free.of_continues fun c known => by simp [continues, known]
  rcases shape with rfl | ⟨sign, ds, sign_is, digits, rfl⟩
  · cases rest with
    | nil => rfl
    | cons c rest =>
      have other : ¬(c = 'e' ∨ c = 'E') := by
        have stops := free c rfl
        rintro (rfl | rfl) <;> cases stops
      exact if_neg other
  · rcases sign_is with rfl | rfl
    · show exponent ('e' :: '+' :: (ds ++ rest)) = _
      rw [exponent, if_pos (.inl rfl)]
      exact exponentDigits_append _ _ digits digit
    · show exponent ('e' :: '-' :: (ds ++ rest)) = _
      rw [exponent, if_pos (.inl rfl)]
      exact exponentDigits_append _ _ digits digit

variable {F : Type} [Floats F]

class LawfulFloats (F : Type) [Floats F] : Prop where
  text : ∀ x : F, (x = Floats.nan ∧ Floats.repr x = ['N', 'a', 'N']) ∨
    (x = Floats.infinity ∧ Floats.repr x = ['I', 'n', 'f', 'i', 'n', 'i', 't', 'y']) ∨
    (x = Floats.minusInfinity ∧ Floats.repr x = ['-', 'I', 'n', 'f', 'i', 'n', 'i', 't', 'y']) ∨
    Floats.ofText (Floats.repr x) = x ∧ ∃ (minus : Bool) (w f e : List Char), Whole w ∧
      Fraction f ∧ Exponent e ∧ (f ≠ [] ∨ e ≠ []) ∧
      Floats.repr x = (if minus then ['-'] else []) ++ w ++ f ++ e

inductive Special where
  | nan
  | infinity
  | minusInfinity

instance : Floats Special where
  repr
    | .nan => ['N', 'a', 'N']
    | .infinity => ['I', 'n', 'f', 'i', 'n', 'i', 't', 'y']
    | .minusInfinity => ['-', 'I', 'n', 'f', 'i', 'n', 'i', 't', 'y']
  ofText _ := .nan
  nan := .nan
  infinity := .infinity
  minusInfinity := .minusInfinity

instance : LawfulFloats Special where
  text
    | .nan => .inl ⟨rfl, rfl⟩
    | .infinity => .inr (.inl ⟨rfl, rfl⟩)
    | .minusInfinity => .inr (.inr (.inl ⟨rfl, rfl⟩))

theorem unsigned_append (minus : Bool) (wholes : Whole w) (fractions : Fraction f)
    (exponents : Exponent e) (free : Free continues rest) :
    (unsigned minus (w ++ f ++ e ++ rest) : Except Error (Value F Str × List Char)) =
      if f = [] ∧ e = [] then
        if maxStrDigits < w.length then .error .value
        else .ok (.int (if minus then -(Nat.ofDigitChars 10 w 0 : Int) else Nat.ofDigitChars 10 w 0),
          rest)
      else .ok (.float (Floats.ofText ((if minus then ['-'] else []) ++ w ++ f ++ e)), rest) := by
  have digit : Free Char.isDigit rest := free.of_continues fun c known => by simp [continues, known]
  have dot : Free (· == '.') rest := free.of_continues fun c known => by
    simp [continues, eq_of_beq known]
  rw [unsigned, List.append_assoc, List.append_assoc,
    whole_append wholes ((digit.exponent rfl exponents).fraction rfl fractions)]
  simp only [fraction_append fractions (digit.exponent rfl exponents)
    fun _ => dot.exponent rfl exponents, exponent_append exponents free]

theorem Whole.head (shape : Whole w) : ∃ c ds, w = c :: ds ∧ c.isDigit = true := by
  rcases shape with rfl | ⟨-, some_digit, all⟩
  · exact ⟨'0', [], rfl, rfl⟩
  · cases w with
    | nil => exact absurd rfl some_digit
    | cons c ds => exact ⟨c, ds, rfl, all c List.mem_cons_self⟩

theorem scalar_unsigned {c : Char} (digit : c.isDigit = true) (t : List Char) :
    (scalar (c :: t) : Except Error (Value F Str × List Char)) = unsigned false (c :: t) := by
  have apart : ∀ d : Char, d.isDigit = false → c ≠ d := by
    rintro d none rfl
    rw [none] at digit
    cases digit
  rw [scalar.eq_8] <;> intro rest same <;> exact apart _ (by decide) (List.cons.inj same).1

theorem scalar_minus {c : Char} (digit : c.isDigit = true) (t : List Char) :
    (scalar ('-' :: c :: t) : Except Error (Value F Str × List Char)) =
      unsigned true (c :: t) := by
  have apart : c ≠ 'I' := by
    rintro rfl
    cases digit
  rw [scalar.eq_7 _ fun rest same => apart (List.cons.inj same).1]

theorem digits_decimal (n : Nat) : Digits (Text.decimal n) :=
  ⟨Text.decimal_ne_nil n, fun _ member => Text.isDigit_of_mem_decimal member⟩

theorem whole_decimal (n : Nat) : Whole (Text.decimal n) := by
  induction n using Nat.strong_induction_on with
  | _ n ih =>
    by_cases small : n < 10
    · cases n with
      | zero => exact .inl rfl
      | succ n =>
        refine .inr ⟨?_, digits_decimal _⟩
        rw [Text.decimal, Nat.toDigits_of_lt_base small]
        simp
    · refine .inr ⟨?_, digits_decimal _⟩
      rw [Text.decimal, Nat.toDigits_of_base_le (by decide) (by omega)]
      rcases ih (n / 10) (by omega) with zero | ⟨first, -⟩
      · have none_left : n / 10 = 0 := Text.decimal_injective (n := 0) zero
        omega
      · rw [List.head?_append_of_ne_nil _ Nat.toDigits_ne_nil]
        exact first

theorem dumpsInt_eq_ok {n : Int} {t : List Char} (written : dumpsInt n = .ok t) :
    ¬maxStrDigits < (Text.decimal n.natAbs).length ∧
      t = (if n < 0 then ['-'] else []) ++ Text.decimal n.natAbs := by
  simp only [dumpsInt] at written
  by_cases long : maxStrDigits < (Text.decimal n.natAbs).length
  · rw [if_pos long] at written
    cases written
  · rw [if_neg long] at written
    refine ⟨long, (Except.ok.inj written).symm.trans ?_⟩
    split <;> rfl

theorem scalar_append (minus : Bool) (wholes : Whole w) (t : List Char) :
    (scalar ((if minus then ['-'] else []) ++ w ++ t) : Except Error (Value F Str × List Char)) =
      unsigned minus (w ++ t) := by
  obtain ⟨c, ds, rfl, digit⟩ := wholes.head
  cases minus with
  | true => exact scalar_minus digit (ds ++ t)
  | false => exact scalar_unsigned digit (ds ++ t)

theorem scalar_dumpsInt {n : Int} {t : List Char} (written : dumpsInt n = .ok t)
    (free : Free continues rest) :
    (scalar (t ++ rest) : Except Error (Value F Str × List Char)) = .ok (.int n, rest) := by
  obtain ⟨short, rfl⟩ := dumpsInt_eq_ok written
  have parts := unsigned_append (F := F) (decide (n < 0)) (whole_decimal n.natAbs) (.inl rfl)
    (.inl rfl) free
  rw [List.append_nil, List.append_nil, if_pos ⟨rfl, rfl⟩, if_neg short,
    Text.ofDigitChars_decimal] at parts
  have sign := scalar_append (F := F) (decide (n < 0)) (whole_decimal n.natAbs) rest
  simp only [decide_eq_true_eq] at parts sign
  rw [sign, parts]
  congr 3
  split <;> omega

theorem scalar_repr [LawfulFloats F] (x : F) (free : Free continues rest) :
    (scalar (Floats.repr x ++ rest) : Except Error (Value F Str × List Char)) =
      .ok (.float x, rest) := by
  rcases LawfulFloats.text x with ⟨rfl, text⟩ | ⟨rfl, text⟩ | ⟨rfl, text⟩ |
    ⟨back, minus, w, f, e, wholes, fractions, exponents, real, text⟩
  · rw [text]
    rfl
  · rw [text]
    rfl
  · rw [text]
    rfl
  · have parts := unsigned_append (F := F) minus wholes fractions exponents free
    have fraction_or : ¬(f = [] ∧ e = []) := by
      rintro ⟨no_fraction, no_exponent⟩
      rcases real with some_fraction | some_exponent
      · exact some_fraction no_fraction
      · exact some_exponent no_exponent
    rw [if_neg fraction_or, ← text, back] at parts
    have sign := scalar_append (F := F) minus wholes (f ++ e ++ rest)
    simp only [List.append_assoc] at parts sign
    rw [text, List.append_assoc, List.append_assoc, List.append_assoc, sign, parts]

end Numbers

end Json
