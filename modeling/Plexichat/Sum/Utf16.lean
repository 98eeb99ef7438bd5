import Plexichat.Library.Offsets
import Mathlib.Data.List.Chain
import Mathlib.Tactic.Common

/-! _formula_shared.py: the text of a formula measured in the code units of UTF-16, for the text
functions whose positions the client engine counts in them. A string of Python is a list of code
points, and a surrogate may be one of them. -/
namespace Plexichat.Sum.Utf16

open Offsets

structure CodePoint where
  ord : Nat
  valid : ord < 0x110000
  deriving DecidableEq

abbrev Text := List CodePoint

structure CodeUnit where
  val : Nat
  valid : val < 0x10000
  deriving DecidableEq

def IsHigh (n : Nat) : Prop := 0xD800 ≤ n ∧ n ≤ 0xDBFF

def IsLow (n : Nat) : Prop := 0xDC00 ≤ n ∧ n ≤ 0xDFFF

instance (n : Nat) : Decidable (IsHigh n) := inferInstanceAs (Decidable (_ ∧ _))

instance (n : Nat) : Decidable (IsLow n) := inferInstanceAs (Decidable (_ ∧ _))

theorem high_valid {c : CodePoint} : 0xD800 + (c.ord - 0x10000) / 0x400 < 0x10000 := by
  have := c.valid
  omega

theorem low_valid {c : CodePoint} : 0xDC00 + (c.ord - 0x10000) % 0x400 < 0x10000 := by
  omega

theorem pair_valid {u v : CodeUnit} (pair : IsHigh u.val ∧ IsLow v.val) :
    0x10000 + (u.val - 0xD800) * 0x400 + (v.val - 0xDC00) < 0x110000 := by
  unfold IsHigh IsLow at pair
  omega

/-- The units of one character; the shift and the mask of ten bits are the quotient and the
remainder. -/
def CodePoint.units (c : CodePoint) : List CodeUnit :=
  if inside : c.ord < 0x10000 then [⟨c.ord, inside⟩]
  else [⟨0xD800 + (c.ord - 0x10000) / 0x400, high_valid⟩,
    ⟨0xDC00 + (c.ord - 0x10000) % 0x400, low_valid⟩]

def utf16Units (text : Text) : List CodeUnit := text.flatMap CodePoint.units

theorem planes : 0x10000 < 0x110000 := by decide

def CodeUnit.chr (u : CodeUnit) : CodePoint := ⟨u.val, Nat.lt_trans u.valid planes⟩

def utf16FromUnits : List CodeUnit → Text
  | [] => []
  | [unit] => [unit.chr]
  | unit :: next :: rest =>
    if pair : IsHigh unit.val ∧ IsLow next.val then ⟨_, pair_valid pair⟩ :: utf16FromUnits rest
    else unit.chr :: utf16FromUnits (next :: rest)

def isAscii (text : Text) : Bool := text.all fun c => c.ord < 0x80

def utf16Len (text : Text) : Nat := if isAscii text then text.length else (utf16Units text).length

def utf16Slice (text : Text) (start : Int) (stop : Option Int) : Text :=
  if isAscii text then slice text start stop
  else utf16FromUnits (slice (utf16Units text) start stop)

/-- The answer of `find` -/
def position : Option Nat → Int
  | none => -1
  | some p => p

/-- `str.find` -/
def strFind (haystack needle : Text) (start : Int) : Int :=
  position (find needle haystack
    (if start < 0 then (start + haystack.length).toNat else start.toNat))

def CodeUnit.bytes (u : CodeUnit) : List Nat := [u.val % 0x100, u.val / 0x100]

/-- `encode("utf-16-le", "surrogatepass")` -/
def encode (text : Text) : List Nat := (utf16Units text).flatMap CodeUnit.bytes

/-- A search of the bytes, which goes on behind a hit that is not on a boundary. -/
def findEven (hay ndl : List Nat) (start : Nat) : Option Nat :=
  match found : find ndl hay start with
  | none => none
  | some p => if p % 2 = 1 then findEven hay ndl (p + 1) else some p
termination_by hay.length + 1 - start
decreasing_by
  have here : IsLeast (From ndl hay start) p := by
    have first := find_first ndl hay start
    rwa [found] at first
  have reached := here.1.1
  have inside := here.1.2.1
  omega

/-- The search behind the fast path of `_utf16_find`. -/
def findUnits (needle haystack : Text) (start : Int) : Int :=
  position ((findEven (encode haystack) (encode needle) ((max start 0).toNat * 2)).map (· / 2))

def utf16Find (needle haystack : Text) (start : Int) : Int :=
  if isAscii needle && isAscii haystack then strFind haystack needle start
  else findUnits needle haystack start

def Separate (text : Text) : Prop :=
  text.IsChain fun c d => ¬(IsHigh c.ord ∧ IsLow d.ord)

/-- The unit offsets from `start` on at which the units of `needle` occur. -/
def offsets (needle haystack : Text) (start : Int) : Set Nat :=
  {p | start ≤ p ∧ Occurs (utf16Units needle) (utf16Units haystack) p}

def LeastOf (s : Set Nat) (answer : Int) : Prop := ∃ a, First s a ∧ answer = position a

section RoundTrip

theorem units_of_inside {c : CodePoint} (inside : c.ord < 0x10000) : c.units = [⟨c.ord, inside⟩] :=
  dif_pos inside

theorem units_of_astral {c : CodePoint} (astral : 0x10000 ≤ c.ord) :
    ∃ u v : CodeUnit, ∃ pair : IsHigh u.val ∧ IsLow v.val, c.units = [u, v] ∧
      c = ⟨_, pair_valid pair⟩ := by
  have valid := c.valid
  have high : IsHigh (0xD800 + (c.ord - 0x10000) / 0x400) := by
    unfold IsHigh
    omega
  have low : IsLow (0xDC00 + (c.ord - 0x10000) % 0x400) := by
    unfold IsLow
    omega
  refine ⟨⟨_, high_valid⟩, ⟨_, low_valid⟩, ⟨high, low⟩, dif_neg (Nat.not_lt.mpr astral), ?_⟩
  have joined : c.ord = 0x10000 + (0xD800 + (c.ord - 0x10000) / 0x400 - 0xD800) * 0x400 +
      (0xDC00 + (c.ord - 0x10000) % 0x400 - 0xDC00) := by
    omega
  cases c
  simpa using joined

theorem head_fromUnits {u : CodeUnit} {rest : List CodeUnit} {c : CodePoint}
    (first : c ∈ (utf16FromUnits (u :: rest)).head?) : c = u.chr ∨ 0x10000 ≤ c.ord := by
  cases rest with
  | nil =>
    simp only [utf16FromUnits, List.head?_cons, Option.mem_some_iff] at first
    exact .inl first.symm
  | cons next rest =>
    rw [utf16FromUnits] at first
    split at first
    · right
      simp only [List.head?_cons, Option.mem_some_iff] at first
      rw [← first]
      simp only [Nat.add_assoc]
      exact Nat.le_add_right _ _
    · simp only [List.head?_cons, Option.mem_some_iff] at first
      exact .inl first.symm

theorem fromUnits_separate (units : List CodeUnit) : Separate (utf16FromUnits units) := by
  fun_induction utf16FromUnits units with
  | case1 => exact .nil
  | case2 unit => exact .singleton _
  | case3 unit next rest pair ih =>
    refine List.isChain_cons.mpr ⟨?_, ih⟩
    rintro c - ⟨high, -⟩
    dsimp only [IsHigh] at high
    omega
  | case4 unit next rest apart ih =>
    refine List.isChain_cons.mpr ⟨?_, ih⟩
    rintro c first ⟨high, low⟩
    rcases head_fromUnits first with rfl | astral
    · exact apart ⟨high, low⟩
    · unfold IsLow at low
      omega

theorem low_first (c : CodePoint) :
    ∃ u rest, c.units = u :: rest ∧ (IsLow u.val → IsLow c.ord) := by
  rcases Nat.lt_or_ge c.ord 0x10000 with inside | astral
  · exact ⟨_, _, units_of_inside inside, id⟩
  · obtain ⟨u, v, pair, split, -⟩ := units_of_astral astral
    refine ⟨u, [v], split, ?_⟩
    intro low
    have high := pair.1
    unfold IsHigh at high
    unfold IsLow at low
    omega

theorem fromUnits_units {text : Text} (separate : Separate text) :
    utf16FromUnits (utf16Units text) = text := by
  induction text with
  | nil => rfl
  | cons c text ih =>
    obtain ⟨beside, separate⟩ := List.isChain_cons.mp separate
    rw [utf16Units, List.flatMap_cons, ← utf16Units]
    rcases Nat.lt_or_ge c.ord 0x10000 with inside | astral
    · rw [units_of_inside inside, List.cons_append, List.nil_append]
      cases text with
      | nil => rfl
      | cons d text =>
        obtain ⟨u, rest, split, low⟩ := low_first d
        have next : utf16Units (d :: text) = u :: (rest ++ utf16Units text) := by
          rw [utf16Units, List.flatMap_cons, split, List.cons_append]
          rfl
        have apart : ¬(IsHigh c.ord ∧ IsLow u.val) :=
          fun pair => beside d rfl ⟨pair.1, low pair.2⟩
        rw [next, utf16FromUnits, dif_neg apart, ← next, ih separate]
        rfl
    · obtain ⟨u, v, pair, split, joined⟩ := units_of_astral astral
      rw [split, List.cons_append, List.cons_append, List.nil_append, utf16FromUnits, dif_pos pair,
        ← joined, ih separate]

theorem round_trip (text : Text) :
    utf16FromUnits (utf16Units text) = text ↔ Separate text :=
  ⟨fun same => same ▸ fromUnits_separate _, fromUnits_units⟩

end RoundTrip

section Ascii

variable {text needle haystack : Text} {start : Int}

theorem chr_injective : Function.Injective CodeUnit.chr := by
  rintro ⟨u, _⟩ ⟨v, _⟩ same
  simpa [CodeUnit.chr] using same

theorem chr_units (plain : isAscii text) : (utf16Units text).map CodeUnit.chr = text := by
  induction text with
  | nil => rfl
  | cons c text ih =>
    obtain ⟨first, rest⟩ := (Bool.and_eq_true _ _).mp plain
    have small : c.ord < 0x80 := of_decide_eq_true first
    have inside : c.ord < 0x10000 := Nat.lt_trans small (by decide)
    rw [utf16Units, List.flatMap_cons, units_of_inside inside, List.cons_append, List.nil_append,
      List.map_cons, ← utf16Units, ih rest]
    rfl

theorem length_units (plain : isAscii text) : (utf16Units text).length = text.length := by
  rw [← List.length_map CodeUnit.chr, chr_units plain]

theorem not_high (plain : isAscii text) : ∀ u ∈ utf16Units text, ¬IsHigh u.val := by
  intro u member high
  have within : u.chr ∈ text := chr_units plain ▸ List.mem_map_of_mem member
  have small : u.val < 0x80 := of_decide_eq_true (List.all_eq_true.mp plain _ within)
  unfold IsHigh at high
  omega

theorem fromUnits_of_not_high {units : List CodeUnit} (single : ∀ u ∈ units, ¬IsHigh u.val) :
    utf16FromUnits units = units.map CodeUnit.chr := by
  fun_induction utf16FromUnits units with
  | case1 => rfl
  | case2 unit => rfl
  | case3 unit next rest pair ih => exact absurd pair.1 (single unit List.mem_cons_self)
  | case4 unit next rest apart ih =>
    rw [List.map_cons, ih fun u member => single u (List.mem_cons_of_mem _ member)]

theorem utf16Len_eq (text : Text) : utf16Len text = (utf16Units text).length := by
  rw [utf16Len]
  split
  · rename_i plain
    exact (length_units plain).symm
  · rfl

theorem utf16Slice_eq (text : Text) (start : Int) (stop : Option Int) :
    utf16Slice text start stop = utf16FromUnits (slice (utf16Units text) start stop) := by
  rw [utf16Slice]
  split
  · rename_i plain
    have single : ∀ u ∈ slice (utf16Units text) start stop, ¬IsHigh u.val := by
      intro u member
      exact not_high plain u (List.mem_of_mem_drop (List.mem_of_mem_take member))
    rw [fromUnits_of_not_high single, ← slice_map, chr_units plain]
  · rfl

theorem occurs_units (plain : isAscii needle && isAscii haystack) {p : Nat} :
    Occurs needle haystack p ↔ Occurs (utf16Units needle) (utf16Units haystack) p := by
  obtain ⟨left, right⟩ := (Bool.and_eq_true _ _).mp plain
  have mapped : Occurs ((utf16Units needle).map CodeUnit.chr)
      ((utf16Units haystack).map CodeUnit.chr) p ↔ _ := occurs_map chr_injective
  rwa [chr_units left, chr_units right] at mapped

end Ascii

section Bytes

variable {needle haystack : Text}

theorem bytes_injective : Function.Injective CodeUnit.bytes := by
  rintro ⟨u, _⟩ ⟨v, _⟩ same
  simp only [CodeUnit.bytes, List.cons.injEq, and_true, CodeUnit.mk.injEq] at same ⊢
  omega

theorem length_bytes (u : CodeUnit) : u.bytes.length = 2 := rfl

theorem occurs_encode {p : Nat} : Occurs (encode needle) (encode haystack) (2 * p) ↔
    Occurs (utf16Units needle) (utf16Units haystack) p :=
  occurs_blocks length_bytes (by decide) bytes_injective

theorem findEven_first (hay ndl : List Nat) (start : Nat) :
    First {q | start ≤ q ∧ q % 2 = 0 ∧ Occurs ndl hay q} (findEven hay ndl start) := by
  fun_induction findEven hay ndl start with
  | case1 start found =>
    have first := find_first ndl hay start
    rw [found] at first
    rintro q ⟨reached, -, occurs⟩
    exact first q ⟨reached, occurs⟩
  | case2 start p found odd ih =>
    have first := find_first ndl hay start
    rw [found] at first
    have same : {q | start ≤ q ∧ q % 2 = 0 ∧ Occurs ndl hay q} =
        {q | p + 1 ≤ q ∧ q % 2 = 0 ∧ Occurs ndl hay q} := by
      ext q
      constructor
      · rintro ⟨reached, even, occurs⟩
        have later : p ≤ q := first.2 ⟨reached, occurs⟩
        exact ⟨by omega, even, occurs⟩
      · rintro ⟨reached, even, occurs⟩
        have before : start ≤ p := first.1.1
        exact ⟨by omega, even, occurs⟩
    exact same ▸ ih
  | case3 start p found even =>
    have first := find_first ndl hay start
    rw [found] at first
    refine ⟨⟨first.1.1, by omega, first.1.2⟩, ?_⟩
    rintro q ⟨reached, -, occurs⟩
    exact first.2 ⟨reached, occurs⟩

theorem findUnits_least (needle haystack : Text) (start : Int) :
    LeastOf (offsets needle haystack start) (findUnits needle haystack start) := by
  refine ⟨_, First.divide (by decide : 0 < 2) ?_ (findEven_first _ _ _), rfl⟩
  intro q
  constructor
  · rintro ⟨reached, even, occurs⟩
    have halved : q = 2 * (q / 2) := by omega
    rw [halved] at occurs
    exact ⟨q / 2, ⟨by omega, occurs_encode.mp occurs⟩, halved⟩
  · rintro ⟨r, ⟨reached, occurs⟩, rfl⟩
    exact ⟨by omega, by omega, occurs_encode.mpr occurs⟩

end Bytes

theorem LeastOf.unique {s : Set Nat} {i j : Int} (left : LeastOf s i) (right : LeastOf s j) :
    i = j := by
  obtain ⟨a, first, rfl⟩ := left
  obtain ⟨b, second, rfl⟩ := right
  rw [first.unique second]

/-- `str.find` counts a negative start from the end. -/
theorem strFind_least {needle haystack : Text} (plain : isAscii needle && isAscii haystack)
    (start : Int) :
    LeastOf (offsets needle haystack (if start < 0 then start + haystack.length else start))
      (strFind haystack needle start) := by
  refine ⟨_, ?_, rfl⟩
  have first := find_first needle haystack
    (if start < 0 then (start + haystack.length).toNat else start.toNat)
  have same : From needle haystack
      (if start < 0 then (start + haystack.length).toNat else start.toNat) =
      offsets needle haystack (if start < 0 then start + haystack.length else start) := by
    ext p
    have reached : (if start < 0 then (start + haystack.length).toNat else start.toNat) ≤ p ↔
        (if start < 0 then start + haystack.length else start) ≤ (p : Int) := by
      split <;> omega
    exact and_congr reached (occurs_units plain)
  rwa [same] at first

theorem utf16Find_eq {needle haystack : Text} {start : Int} (positive : 0 ≤ start) :
    utf16Find needle haystack start = findUnits needle haystack start := by
  rw [utf16Find]
  split
  · rename_i plain
    have first := strFind_least plain start
    rw [if_neg (Int.not_lt.mpr positive)] at first
    exact first.unique (findUnits_least needle haystack start)
  · rfl

theorem utf16Find_least (needle haystack : Text) (start : Int) :
    LeastOf (offsets needle haystack
      (if start < 0 ∧ isAscii needle ∧ isAscii haystack then start + haystack.length else start))
      (utf16Find needle haystack start) := by
  by_cases plain : isAscii needle && isAscii haystack
  · have both := (Bool.and_eq_true _ _).mp plain
    rw [utf16Find, if_pos plain]
    simp only [both, and_true]
    exact strFind_least plain start
  · have other : ¬(start < 0 ∧ isAscii needle ∧ isAscii haystack) :=
      fun all => plain ((Bool.and_eq_true _ _).mpr all.2)
    rw [utf16Find, if_neg plain, if_neg other]
    exact findUnits_least needle haystack start

/-- On text without two halves of a pair beside each other the units decode to it, the fast paths
are the paths over the units, and the search answers the least offset from its start on. The fast
path of the search alone takes a start below zero for one from the end. -/
theorem helpers_count_units (text needle haystack : Text) (start : Int) (stop : Option Int) :
    (utf16FromUnits (utf16Units text) = text ↔ Separate text) ∧
    utf16Len text = (utf16Units text).length ∧
    utf16Slice text start stop = utf16FromUnits (slice (utf16Units text) start stop) ∧
    (0 ≤ start → utf16Find needle haystack start = findUnits needle haystack start) ∧
    LeastOf (offsets needle haystack
      (if start < 0 ∧ isAscii needle ∧ isAscii haystack then start + haystack.length else start))
      (utf16Find needle haystack start) :=
  ⟨round_trip text, utf16Len_eq text, utf16Slice_eq text start stop, utf16Find_eq,
    utf16Find_least needle haystack start⟩

section Characters

theorem character_valid (c : Char) : c.toNat < 0x110000 := by
  rcases c.valid with low | high
  · exact Nat.lt_trans low (by decide)
  · exact high.2

def characters (t : List Char) : Text := t.map fun c => ⟨c.toNat, character_valid c⟩

theorem halves_valid : 0xD83D < 0x10000 ∧ 0xDE00 < 0x10000 := by decide

def halves : Text := [CodeUnit.chr ⟨_, halves_valid.1⟩, CodeUnit.chr ⟨_, halves_valid.2⟩]

/-- A start before the text, and two halves that decode to one character. -/
theorem helpers_count_units_apart :
    ¬LeastOf (offsets (characters ['b']) (characters ['b', 'a']) (-1))
      (utf16Find (characters ['b']) (characters ['b', 'a']) (-1)) ∧
    utf16FromUnits (utf16Units halves) ≠ halves := by
  constructor
  · rintro ⟨a, first, answer⟩
    have missed : utf16Find (characters ['b']) (characters ['b', 'a']) (-1) = -1 := by decide
    cases a with
    | none => exact first 0 ⟨by decide, by decide⟩
    | some p =>
      rw [missed] at answer
      simp only [position] at answer
      omega
  · decide

end Characters

end Plexichat.Sum.Utf16
