import Mathlib.Data.List.TakeWhile
import Plexichat.Library.Json

/-! `int(text)` and `str.strip` of Python on every text, with the decimal digits of all
scripts. -/
namespace Numeral

/-- Where the runs of decimal digits of Unicode 16 begin. -/
def zeros : List Nat :=
  [0x30, 0x660, 0x6f0, 0x7c0, 0x966, 0x9e6, 0xa66, 0xae6, 0xb66, 0xbe6, 0xc66, 0xce6, 0xd66, 0xde6,
    0xe50, 0xed0, 0xf20, 0x1040, 0x1090, 0x17e0, 0x1810, 0x1946, 0x19d0, 0x1a80, 0x1a90, 0x1b50,
    0x1bb0, 0x1c40, 0x1c50, 0xa620, 0xa8d0, 0xa900, 0xa9d0, 0xa9f0, 0xaa50, 0xabf0, 0xff10, 0x104a0,
    0x10d30, 0x10d40, 0x11066, 0x110f0, 0x11136, 0x111d0, 0x112f0, 0x11450, 0x114d0, 0x11650,
    0x116c0, 0x116d0, 0x116da, 0x11730, 0x118e0, 0x11950, 0x11bf0, 0x11c50, 0x11d50, 0x11da0,
    0x11f50, 0x16130, 0x16a60, 0x16ac0, 0x16b50, 0x16d70, 0x1ccf0, 0x1d7ce, 0x1d7d8, 0x1d7e2,
    0x1d7ec, 0x1d7f6, 0x1e140, 0x1e2f0, 0x1e4f0, 0x1e5f1, 0x1e950, 0x1fbf0]

def decimal (c : Char) : Option Nat :=
  (zeros.find? fun z => z ≤ c.toNat && c.toNat < z + 10).map fun z => c.toNat - z

def spaceCode (n : Nat) : Bool :=
  n == 32 || (9 ≤ n && n ≤ 13) || (28 ≤ n && n ≤ 31) || n == 0x85 || n == 0xa0 || n == 0x1680 ||
    (0x2000 ≤ n && n ≤ 0x200a) || n == 0x2028 || n == 0x2029 || n == 0x202f || n == 0x205f ||
    n == 0x3000

/-- `str.isspace` on one character. -/
def isSpace (c : Char) : Bool := spaceCode c.toNat

/-- What int skips: the four separators of ASCII are white space elsewhere. -/
def isBlank (c : Char) : Bool := isSpace c && !(28 ≤ c.toNat && c.toNat ≤ 31)

def trim (p : Char → Bool) (t : List Char) : List Char :=
  ((t.dropWhile p).reverse.dropWhile p).reverse

def strip (t : List Char) : List Char := trim isSpace t

def digits : List Char → Option (List Nat)
  | [] => some []
  | '_' :: c :: rest => do return (← decimal c) :: (← digits rest)
  | c :: rest => do return (← decimal c) :: (← digits rest)

def natural : List Char → Option Nat
  | [] => none
  | c :: rest => do
    let d ← decimal c
    let ds ← digits rest
    if Json.maxStrDigits ≤ ds.length then none
    return ds.foldl (fun n d => 10 * n + d) d

def signed : List Char → Option Int
  | '-' :: rest => (natural rest).map fun n : Nat => -(n : Int)
  | '+' :: rest => (natural rest).map Int.ofNat
  | t => (natural t).map Int.ofNat

/-- `int(t)`; none is ValueError. -/
def int (t : List Char) : Option Int := signed (trim isBlank t)

section Trim

variable {p : Char → Bool} {t : List Char}

theorem trim_split (p : Char → Bool) (t : List Char) : ∃ before after,
    t = before ++ trim p t ++ after ∧ (∀ c ∈ before, p c = true) ∧ ∀ c ∈ after, p c = true := by
  refine ⟨t.takeWhile p, ((t.dropWhile p).reverse.takeWhile p).reverse, ?_, ?_, ?_⟩
  · have back : trim p t ++ ((t.dropWhile p).reverse.takeWhile p).reverse = t.dropWhile p := by
      rw [trim, ← List.reverse_append, List.takeWhile_append_dropWhile, List.reverse_reverse]
    rw [List.append_assoc, back, List.takeWhile_append_dropWhile]
  · exact fun c member => List.mem_takeWhile_imp member
  · exact fun c member => List.mem_takeWhile_imp (List.mem_reverse.mp member)

theorem dropWhile_append_core {before core : List Char} (all : ∀ c ∈ before, p c = true)
    (none : ∀ c ∈ core, p c = false) {after : List Char} (rest : ∀ c ∈ after, p c = true) :
    (before ++ core ++ after).dropWhile p = if core = [] then [] else core ++ after := by
  rw [List.append_assoc, List.dropWhile_append_of_pos all]
  cases core with
  | nil => exact List.dropWhile_eq_nil_iff.mpr rest
  | cons c core =>
    rw [if_neg (List.cons_ne_nil _ _), List.cons_append, List.dropWhile_cons_of_neg]
    exact Bool.eq_false_iff.mp (none c List.mem_cons_self)

theorem trim_append {before core after : List Char} (left : ∀ c ∈ before, p c = true)
    (none : ∀ c ∈ core, p c = false) (right : ∀ c ∈ after, p c = true) :
    trim p (before ++ core ++ after) = core := by
  rw [trim, dropWhile_append_core left none right]
  by_cases empty : core = []
  · rw [if_pos empty, empty]
    rfl
  · have back : after.reverse ++ core.reverse = after.reverse ++ core.reverse ++ [] := by simp
    rw [if_neg empty, List.reverse_append, back, dropWhile_append_core, if_neg (by simpa using empty),
      List.append_nil, List.reverse_reverse]
    · simpa using right
    · simpa using none
    · simp

theorem trim_cons {c : Char} (first : p c = false) (t : List Char) :
    ∃ rest, trim p (c :: t) = c :: rest := by
  rw [trim, List.dropWhile_cons_of_neg (Bool.eq_false_iff.mp first), List.reverse_cons,
    List.dropWhile_append]
  split
  · exact ⟨[], by simp [first]⟩
  · exact ⟨(t.reverse.dropWhile p).reverse, by simp⟩

theorem trim_ends {c d : Char} (first : p c = false) (last : p d = false) (t : List Char) :
    trim p (c :: t ++ [d]) = c :: t ++ [d] := by
  rw [trim, List.cons_append, List.dropWhile_cons_of_neg (Bool.eq_false_iff.mp first),
    ← List.cons_append, List.reverse_append, List.reverse_singleton, List.singleton_append,
    List.dropWhile_cons_of_neg (Bool.eq_false_iff.mp last), List.reverse_cons,
    List.reverse_reverse]

theorem mem_strip {c : Char} (member : c ∈ t) (visible : isSpace c = false) : c ∈ strip t := by
  obtain ⟨before, after, split, left, right⟩ := trim_split isSpace t
  rw [split] at member
  simp only [List.mem_append] at member
  rcases member with (first | inside) | last
  · exact absurd (left c first) (Bool.eq_false_iff.mp visible)
  · exact inside
  · exact absurd (right c last) (Bool.eq_false_iff.mp visible)

theorem mem_of_mem_strip {c : Char} (member : c ∈ strip t) : c ∈ t := by
  obtain ⟨before, after, split, _, _⟩ := trim_split isSpace t
  rw [split]
  simp only [List.mem_append]
  exact .inl (.inr member)

end Trim

section Digits

variable {c : Char} {t : List Char}

theorem isSpace_of_decimal (digit : (decimal c).isSome) : isSpace c = false := by
  have all : ∀ z ∈ zeros, ∀ d : Fin 10, spaceCode (z + d) = false := by decide +kernel
  rw [decimal, Option.isSome_map, List.find?_isSome] at digit
  obtain ⟨z, member, range⟩ := digit
  simp only [Bool.and_eq_true, decide_eq_true_eq] at range
  have here := all z member ⟨c.toNat - z, by omega⟩
  rwa [Nat.add_sub_cancel' range.1] at here

def isNumeric (c : Char) : Bool := c == '_' || c == '+' || c == '-' || (decimal c).isSome

theorem isSpace_of_isNumeric (numeric : isNumeric c = true) : isSpace c = false := by
  simp only [isNumeric, Bool.or_eq_true, beq_iff_eq] at numeric
  rcases numeric with ((rfl | rfl) | rfl) | digit
  · decide
  · decide
  · decide
  · exact isSpace_of_decimal digit

theorem isNumeric_of_decimal {d : Nat} (digit : decimal c = some d) : isNumeric c = true := by
  simp [isNumeric, digit]

theorem digits_numeric {ds : List Nat} (read : digits t = some ds) :
    ∀ c ∈ t, isNumeric c = true := by
  induction t using digits.induct generalizing ds with
  | case1 => exact fun c member => absurd member List.not_mem_nil
  | case2 c rest ih =>
    simp only [digits, Option.bind_eq_bind, Option.bind_eq_some_iff] at read
    obtain ⟨d, digit, ds, tail, _⟩ := read
    exact List.forall_mem_cons.mpr ⟨rfl, List.forall_mem_cons.mpr
      ⟨isNumeric_of_decimal digit, ih tail⟩⟩
  | case3 c rest apart ih =>
    rw [digits.eq_3 _ _ apart] at read
    simp only [Option.bind_eq_bind, Option.bind_eq_some_iff] at read
    obtain ⟨d, digit, ds, tail, _⟩ := read
    exact List.forall_mem_cons.mpr ⟨isNumeric_of_decimal digit, ih tail⟩

theorem natural_numeric {n : Nat} (read : natural t = some n) : ∀ c ∈ t, isNumeric c = true := by
  cases t with
  | nil => cases read
  | cons c rest =>
    simp only [natural, Option.bind_eq_bind, Option.bind_eq_some_iff] at read
    obtain ⟨d, digit, ds, tail, _⟩ := read
    exact List.forall_mem_cons.mpr ⟨isNumeric_of_decimal digit, digits_numeric tail⟩

theorem signed_numeric {n : Int} (read : signed t = some n) : ∀ c ∈ t, isNumeric c = true := by
  unfold signed at read
  split at read
  · obtain ⟨m, number, _⟩ := Option.map_eq_some_iff.mp read
    exact List.forall_mem_cons.mpr ⟨rfl, natural_numeric number⟩
  · obtain ⟨m, number, _⟩ := Option.map_eq_some_iff.mp read
    exact List.forall_mem_cons.mpr ⟨rfl, natural_numeric number⟩
  · obtain ⟨m, number, _⟩ := Option.map_eq_some_iff.mp read
    exact natural_numeric number

theorem int_numeric {n : Int} (read : int t = some n) :
    ∀ c ∈ t, isBlank c = true ∨ isNumeric c = true := by
  obtain ⟨before, after, split, left, right⟩ := trim_split isBlank t
  intro c member
  rw [split] at member
  simp only [List.mem_append] at member
  rcases member with (first | inside) | last
  · exact .inl (left c first)
  · exact .inr (signed_numeric read c inside)
  · exact .inl (right c last)

theorem isSpace_of_isBlank (blank : isBlank c = true) : isSpace c = true :=
  (Bool.and_eq_true_iff.mp blank).1

theorem int_strip {n : Int} (read : int t = some n) : int (strip t) = some n := by
  obtain ⟨before, after, split, left, right⟩ := trim_split isBlank t
  have core : ∀ c ∈ trim isBlank t, isSpace c = false :=
    fun c member => isSpace_of_isNumeric (signed_numeric read c member)
  have stripped : strip t = trim isBlank t := by
    have ends := trim_append (fun c member => isSpace_of_isBlank (left c member)) core
      fun c member => isSpace_of_isBlank (right c member)
    rwa [← split] at ends
  have kept : trim isBlank (trim isBlank t) = trim isBlank t := by
    have none : ∀ c ∈ trim isBlank t, isBlank c = false :=
      fun c member => by rw [isBlank, core c member, Bool.false_and]
    simpa using @trim_append isBlank [] (trim isBlank t) [] (by simp) none (by simp)
  rw [stripped, int, kept]
  exact read

theorem int_eq_none {c : Char} (member : c ∈ t) (other : isBlank c = false ∧ isNumeric c = false) :
    int t = none := by
  cases read : int t with
  | none => rfl
  | some n =>
    rcases int_numeric read c member with blank | numeric
    · exact absurd blank (Bool.eq_false_iff.mp other.1)
    · exact absurd numeric (Bool.eq_false_iff.mp other.2)

end Digits

section Dumps

variable {t : List Char}

theorem decimal_of_isDigit {c : Char} (digit : c.isDigit = true) :
    decimal c = some (c.toNat - 48) := by
  have range : 48 ≤ c.toNat ∧ c.toNat ≤ 57 := Char.isDigit_iff_toNat.mp digit
  have first : zeros.find? (fun z => z ≤ c.toNat && c.toNat < z + 10) = some 48 := by
    apply List.find?_cons_of_pos
    simp only [Bool.and_eq_true, decide_eq_true_eq]
    omega
  rw [decimal, first]
  rfl

theorem digits_of_isDigit (all : ∀ c ∈ t, c.isDigit = true) :
    digits t = some (t.map fun c => c.toNat - 48) := by
  induction t with
  | nil => rfl
  | cons c t ih =>
    have digit := all c List.mem_cons_self
    have apart : c ≠ '_' := by
      rintro rfl
      cases digit
    rw [digits.eq_3 _ _ fun _ _ same _ => apart same, decimal_of_isDigit digit,
      ih fun d member => all d (List.mem_cons_of_mem c member)]
    rfl

theorem natural_decimal {n : Nat} (short : (Text.decimal n).length ≤ Json.maxStrDigits) :
    natural (Text.decimal n) = some n := by
  have all : ∀ c ∈ Text.decimal n, c.isDigit = true := fun c => Text.isDigit_of_mem_decimal
  have value := Text.ofDigitChars_decimal n
  cases text : Text.decimal n with
  | nil => exact absurd text (Text.decimal_ne_nil n)
  | cons c rest =>
    rw [text] at all value short
    have few : ¬ Json.maxStrDigits ≤ (rest.map fun c => c.toNat - 48).length := by
      rw [List.length_map]
      rw [List.length_cons] at short
      omega
    rw [natural, decimal_of_isDigit (all c List.mem_cons_self),
      digits_of_isDigit fun d member => all d (List.mem_cons_of_mem c member)]
    simp only [Option.bind_eq_bind, Option.bind_some, if_neg few]
    rw [List.foldl_map]
    rw [Nat.ofDigitChars_cons] at value
    simpa [Nat.ofDigitChars] using value

theorem int_dumpsInt {n : Int} (written : Json.dumpsInt n = .ok t) : int t = some n := by
  unfold Json.dumpsInt at written
  simp only at written
  split at written
  · cases written
  · rename_i short
    have read : natural (Text.decimal n.natAbs) = some n.natAbs := natural_decimal (by omega)
    have value : signed t = some n := by
      cases written
      split
      · rename_i negative
        rw [signed, read]
        simp only [Option.map_some, Option.some.injEq]
        omega
      · rename_i positive
        have minus : '-' ∉ Text.decimal n.natAbs := Text.not_mem_decimal (by decide) _
        have plus : '+' ∉ Text.decimal n.natAbs := Text.not_mem_decimal (by decide) _
        unfold signed
        split
        · rename_i text
          exact absurd (text ▸ List.mem_cons_self) minus
        · rename_i text
          exact absurd (text ▸ List.mem_cons_self) plus
        · rw [read]
          simp only [Option.map_some, Option.some.injEq]
          show (n.natAbs : Int) = n
          omega
    have none : ∀ c ∈ t, isBlank c = false := fun c member => by
      rw [isBlank, isSpace_of_isNumeric (signed_numeric value c member), Bool.false_and]
    have kept : trim isBlank t = t := by
      simpa using @trim_append isBlank [] t [] (by simp) none (by simp)
    rw [int, kept]
    exact value

end Dumps

end Numeral
