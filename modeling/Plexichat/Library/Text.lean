import Mathlib.Data.List.TakeDrop
import Mathlib.Data.Nat.Digits.Defs
import Std.Data.String.ToNat

/-! Python text on lists of code points: split, str and int, and the UTF-8
codec. Only ASCII digits and ASCII white space are read by int. -/
namespace Text

/-- `t.split(sep, n)` for a separator of one character. -/
def split (sep : Char) : Nat → List Char → List (List Char)
  | 0, t => [t]
  | n + 1, t =>
    match t.dropWhile (· != sep) with
    | [] => [t]
    | _ :: rest => t.takeWhile (· != sep) :: split sep n rest

theorem dropWhile_ne {sep : Char} {t : List Char} (h : sep ∉ t) (rest : List Char) :
    (t ++ rest).dropWhile (· != sep) = rest.dropWhile (· != sep) := by
  induction t with
  | nil => rfl
  | cons c t ih =>
    have hc : (c != sep) = true := by
      have : c ≠ sep := fun e => h (e ▸ List.mem_cons_self)
      simpa using this
    have ht : sep ∉ t := fun m => h (List.mem_cons_of_mem c m)
    simp only [List.cons_append, List.dropWhile_cons, hc, if_true, ih ht]

theorem takeWhile_ne {sep : Char} {t : List Char} (h : sep ∉ t) (rest : List Char) :
    (t ++ sep :: rest).takeWhile (· != sep) = t := by
  induction t with
  | nil => simp
  | cons c t ih =>
    have hc : (c != sep) = true := by
      have : c ≠ sep := fun e => h (e ▸ List.mem_cons_self)
      simpa using this
    have ht : sep ∉ t := fun m => h (List.mem_cons_of_mem c m)
    simp only [List.cons_append, List.takeWhile_cons, hc, if_true, ih ht]

theorem split_of_not_mem {sep : Char} {t : List Char} (h : sep ∉ t) (n : Nat) :
    split sep n t = [t] := by
  cases n with
  | zero => rfl
  | succ n =>
    have none_left : t.dropWhile (· != sep) = [] := by
      simpa using dropWhile_ne h []
    simp only [split, none_left]

theorem split_append {sep : Char} {t : List Char} (h : sep ∉ t) (n : Nat) (rest : List Char) :
    split sep (n + 1) (t ++ sep :: rest) = t :: split sep n rest := by
  have dropped : (t ++ sep :: rest).dropWhile (· != sep) = sep :: rest := by
    rw [dropWhile_ne h]
    simp
  simp only [split, dropped, takeWhile_ne h]

/-- `str(n)` of a non-negative integer. -/
def decimal (n : Nat) : List Char := Nat.toDigits 10 n

theorem isDigit_of_mem_decimal {n : Nat} {c : Char} (h : c ∈ decimal n) : c.isDigit = true :=
  Nat.isDigit_of_mem_toDigits (by decide) (by decide) h

theorem decimal_ne_nil (n : Nat) : decimal n ≠ [] := Nat.toDigits_ne_nil

theorem ofDigitChars_decimal (n : Nat) : Nat.ofDigitChars 10 (decimal n) 0 = n :=
  Nat.ofDigitChars_ten_toDigits

theorem decimal_injective {m n : Nat} (h : decimal m = decimal n) : m = n := by
  rw [← ofDigitChars_decimal m, ← ofDigitChars_decimal n, h]

theorem not_mem_decimal {c : Char} (h : c.isDigit = false) (n : Nat) : c ∉ decimal n := by
  intro m
  simp [isDigit_of_mem_decimal m] at h

def isSpace (c : Char) : Bool :=
  c.toNat == 32 || (9 ≤ c.toNat && c.toNat ≤ 13) || (28 ≤ c.toNat && c.toNat ≤ 31)

def strip (t : List Char) : List Char :=
  ((t.dropWhile isSpace).reverse.dropWhile isSpace).reverse

def digits (acc : Nat) : List Char → Option Nat
  | [] => some acc
  | '_' :: c :: rest => if c.isDigit then digits (10 * acc + (c.toNat - 48)) rest else none
  | c :: rest => if c.isDigit then digits (10 * acc + (c.toNat - 48)) rest else none

def natural : List Char → Option Nat
  | [] => none
  | c :: rest => if c.isDigit then digits (c.toNat - 48) rest else none

/-- `int(t)`; none is ValueError. -/
def int (t : List Char) : Option Int :=
  match strip t with
  | '-' :: rest => (natural rest).map fun n => -(n : Int)
  | '+' :: rest => (natural rest).map Int.ofNat
  | rest => (natural rest).map Int.ofNat

theorem isSpace_of_isDigit {c : Char} (h : c.isDigit = true) : isSpace c = false := by
  have bounds : 48 ≤ c.toNat ∧ c.toNat ≤ 57 := Char.isDigit_iff_toNat.mp h
  simp only [isSpace, Bool.or_eq_false_iff, Bool.and_eq_false_iff, beq_eq_false_iff_ne,
    decide_eq_false_iff_not]
  omega

theorem strip_of_digits {t : List Char} (h : ∀ c ∈ t, c.isDigit = true) : strip t = t := by
  have stays : ∀ {l : List Char}, (∀ c ∈ l, c.isDigit = true) → l.dropWhile isSpace = l := by
    intro l hl
    cases l with
    | nil => rfl
    | cons c l => simp [isSpace_of_isDigit (hl c List.mem_cons_self)]
  have back : t.reverse.dropWhile isSpace = t.reverse :=
    stays fun c hc => h c (List.mem_reverse.mp hc)
  rw [strip, stays h, back, List.reverse_reverse]

theorem strip_append {c d : Char} (first : isSpace c = false) (last : isSpace d = false)
    (t rest : List Char) :
    ∃ rest', strip (c :: t ++ d :: rest) = c :: t ++ d :: rest' := by
  have front : (c :: t ++ d :: rest).dropWhile isSpace = c :: t ++ d :: rest := by
    simp [first]
  have split : (c :: t ++ d :: rest).reverse = rest.reverse ++ (d :: (c :: t).reverse) := by
    simp
  rw [strip, front, split, List.dropWhile_append]
  split
  · refine ⟨[], ?_⟩
    simp [last]
  · refine ⟨(rest.reverse.dropWhile isSpace).reverse, ?_⟩
    simp

theorem digits_of_isDigit {t : List Char} (h : ∀ c ∈ t, c.isDigit = true) (acc : Nat) :
    digits acc t = some (Nat.ofDigitChars 10 t acc) := by
  induction t generalizing acc with
  | nil => simp [digits]
  | cons c t ih =>
    have hc := h c List.mem_cons_self
    have apart : c ≠ '_' := by rintro rfl; exact absurd hc (by decide)
    have ht := ih fun d hd => h d (List.mem_cons_of_mem c hd)
    rw [digits.eq_3 _ _ _ (by rintro d r e; exact absurd e apart), if_pos hc, ht,
      Nat.ofDigitChars_cons]
    rfl

theorem natural_decimal (n : Nat) : natural (decimal n) = some n := by
  have all : ∀ c ∈ decimal n, c.isDigit = true := fun c hc => isDigit_of_mem_decimal hc
  cases e : decimal n with
  | nil => exact absurd e (decimal_ne_nil n)
  | cons c rest =>
    rw [e] at all
    have value := ofDigitChars_decimal n
    rw [e, Nat.ofDigitChars_cons] at value
    rw [natural, if_pos (all c List.mem_cons_self),
      digits_of_isDigit fun d hd => all d (List.mem_cons_of_mem c hd)]
    simpa using value

@[simp] theorem int_decimal (n : Nat) : int (decimal n) = some (n : Int) := by
  have kept : strip (decimal n) = decimal n := strip_of_digits fun c hc => isDigit_of_mem_decimal hc
  have minus : '-' ∉ decimal n := not_mem_decimal (by decide) n
  have plus : '+' ∉ decimal n := not_mem_decimal (by decide) n
  have value := natural_decimal n
  rw [int, kept]
  cases e : decimal n with
  | nil => exact absurd e (decimal_ne_nil n)
  | cons c rest =>
    rw [e] at minus plus value
    split
    · rename_i h; exact absurd (List.cons.inj h).1 fun e => minus (e ▸ List.mem_cons_self)
    · rename_i h; exact absurd (List.cons.inj h).1 fun e => plus (e ▸ List.mem_cons_self)
    · simp [value]

/-- `t.encode("utf-8")`. -/
def utf8 (t : List Char) : List UInt8 := (String.ofList t).toUTF8.data.toList

/-- `b.decode("utf-8")`; none is UnicodeDecodeError. -/
def utf8Decode (b : List UInt8) : Option (List Char) :=
  (ByteArray.mk b.toArray).utf8Decode?.map Array.toList

@[simp] theorem utf8Decode_utf8 (t : List Char) : utf8Decode (utf8 t) = some t := by
  have same : ByteArray.mk (utf8 t).toArray = t.utf8Encode := by
    simp [utf8]
  rw [utf8Decode, same, List.utf8Decode?_utf8Encode]
  simp

theorem utf8_ascii {t : List Char} (plain : ∀ c ∈ t, c.toNat < 128) :
    utf8 t = t.map fun c => UInt8.ofNat c.toNat := by
  induction t with
  | nil => rfl
  | cons c t ih =>
    have rest := ih fun d h => plain d (List.mem_cons_of_mem c h)
    have small : c.toNat ≤ 127 := Nat.le_of_lt_succ (plain c List.mem_cons_self)
    simp [utf8, List.utf8Encode, String.utf8EncodeChar, small] at rest ⊢
    exact rest

theorem length_le_utf8 (t : List Char) : t.length ≤ (utf8 t).length := by
  induction t with
  | nil => exact Nat.zero_le _
  | cons c t ih =>
    have one := c.utf8Size_pos
    have parts : (utf8 (c :: t)).length = c.utf8Size + (utf8 t).length := by
      simp [utf8, List.utf8Encode]
    rw [parts, List.length_cons]
    omega

theorem utf8_of_utf8Decode {bytes : List UInt8} {t : List Char} (h : utf8Decode bytes = some t) :
    utf8 t = bytes := by
  obtain ⟨chars, read, rfl⟩ := Option.map_eq_some_iff.mp h
  have back := ByteArray.utf8Encode_get_utf8Decode? (b := ByteArray.mk bytes.toArray)
    (h := by rw [read]; rfl)
  simp only [read, Option.get_some] at back
  simp [utf8, back]

theorem length_le_of_utf8Decode {bytes : List UInt8} {t : List Char}
    (h : utf8Decode bytes = some t) : t.length ≤ bytes.length :=
  utf8_of_utf8Decode h ▸ length_le_utf8 t

theorem length_le_of_mem_split {sep : Char} {n : Nat} {t part : List Char}
    (h : part ∈ split sep n t) : part.length ≤ t.length := by
  induction n generalizing t with
  | zero => rw [List.mem_singleton.mp h]
  | succ n ih =>
    rw [split] at h
    split at h
    · rw [List.mem_singleton.mp h]
    · rename_i c rest dropped
      cases List.mem_cons.mp h with
      | inl first =>
        rw [first]
        exact (List.takeWhile_sublist _).length_le
      | inr later =>
        have shorter := (List.dropWhile_sublist (l := t) (· != sep)).length_le
        rw [dropped, List.length_cons] at shorter
        exact (ih later).trans (by omega)

end Text
