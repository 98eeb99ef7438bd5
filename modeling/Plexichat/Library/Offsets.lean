import Mathlib.Data.List.Infix
import Mathlib.Data.Nat.Find
import Mathlib.Order.Bounds.Basic

/-! Offsets into a sequence: the places where a pattern occurs, the first of them from an offset on,
and pieces whose ends may count from the end. An encoding by blocks of one width keeps the places. -/
namespace Offsets

universe u v

variable {α : Type u} {β : Type v}

def Occurs (needle hay : List α) (p : Nat) : Prop := p ≤ hay.length ∧ needle <+: hay.drop p

instance [DecidableEq α] (needle hay : List α) (p : Nat) : Decidable (Occurs needle hay p) :=
  inferInstanceAs (Decidable (_ ∧ _))

def From (needle hay : List α) (start : Nat) : Set Nat := {p | start ≤ p ∧ Occurs needle hay p}

def find [DecidableEq α] (needle hay : List α) (start : Nat) : Option Nat :=
  (List.range (hay.length + 1)).find? fun p => decide (start ≤ p ∧ Occurs needle hay p)

/-- An index into a sequence of length `n`: a negative one counts from the end, one that lies outside
is moved to the nearer end. -/
def resolve (n : Nat) (i : Int) : Nat := if i < 0 then (i + n).toNat else min i.toNat n

def slice (xs : List α) (start : Int) (stop : Option Int) : List α :=
  let first := resolve xs.length start
  let last := (stop.map (resolve xs.length)).getD xs.length
  (xs.drop first).take (last - first)

def First (s : Set Nat) : Option Nat → Prop
  | none => ∀ p, p ∉ s
  | some p => IsLeast s p

theorem First.unique {s : Set Nat} {a b : Option Nat} (left : First s a) (right : First s b) :
    a = b := by
  cases a with
  | none =>
    cases b with
    | none => rfl
    | some q => exact absurd right.1 (left q)
  | some p =>
    cases b with
    | none => exact absurd left.1 (right p)
    | some q => rw [IsLeast.unique left right]

theorem First.divide {s t : Set Nat} {width : Nat} {a : Option Nat} (positive : 0 < width)
    (multiples : ∀ q, q ∈ s ↔ ∃ r ∈ t, q = width * r) (first : First s a) :
    First t (a.map (· / width)) := by
  cases a with
  | none =>
    intro r member
    exact first (width * r) ((multiples _).mpr ⟨r, member, rfl⟩)
  | some p =>
    obtain ⟨r, member, rfl⟩ := (multiples p).mp first.1
    rw [Option.map_some, Nat.mul_div_cancel_left r positive]
    refine ⟨member, ?_⟩
    intro other inside
    have later := first.2 ((multiples _).mpr ⟨other, inside, rfl⟩)
    exact Nat.le_of_mul_le_mul_left later positive

theorem find_first [DecidableEq α] (needle hay : List α) (start : Nat) :
    First (From needle hay start) (find needle hay start) := by
  cases found : find needle hay start with
  | none =>
    rw [find, List.find?_eq_none] at found
    rintro q ⟨reached, occurs⟩
    have searched := List.mem_range.mpr (Nat.lt_succ_of_le occurs.1)
    exact found q searched (decide_eq_true ⟨reached, occurs⟩)
  | some p =>
    rw [find, List.find?_range_eq_some] at found
    obtain ⟨here, -, before⟩ := found
    rw [decide_eq_true_eq] at here
    refine ⟨here, ?_⟩
    intro q occurs
    by_contra earlier
    have missed := before q (Nat.not_le.mp earlier)
    rw [Bool.not_eq_true', decide_eq_false_iff_not] at missed
    exact missed occurs

section Maps

variable {f : α → β}

theorem occurs_map (injective : Function.Injective f) {needle hay : List α} {p : Nat} :
    Occurs (needle.map f) (hay.map f) p ↔ Occurs needle hay p := by
  have moved : needle.map f <+: (hay.drop p).map f ↔ needle <+: hay.drop p := by
    constructor
    · rintro ⟨rest, joined⟩
      have front : ((hay.drop p).take needle.length).map f = needle.map f := by
        rw [List.map_take, ← joined, ← List.length_map f, List.take_left]
      exact ⟨_, (congrArg (· ++ _) (injective.list_map front).symm).trans
        (List.take_append_drop needle.length (hay.drop p))⟩
    · exact fun inside => inside.map f
  rw [Occurs, Occurs, List.length_map, ← List.map_drop, moved]

theorem slice_map (xs : List α) (start : Int) (stop : Option Int) :
    slice (xs.map f) start stop = (slice xs start stop).map f := by
  simp only [slice, List.length_map, List.map_take, List.map_drop]

end Maps

/-! Blocks of one width that tell the elements apart. -/
section Blocks

variable {width : Nat} {block : α → List β}

theorem drop_blocks (even : ∀ a, (block a).length = width) (xs : List α) (p : Nat) :
    (xs.flatMap block).drop (width * p) = (xs.drop p).flatMap block := by
  induction xs generalizing p with
  | nil => simp
  | cons a xs ih =>
    cases p with
    | zero => simp
    | succ p =>
      rw [List.flatMap_cons, List.drop_succ_cons, ← ih p, Nat.mul_succ, Nat.add_comm,
        ← List.drop_drop, ← even a, List.drop_left]

theorem length_blocks (even : ∀ a, (block a).length = width) (xs : List α) :
    (xs.flatMap block).length = width * xs.length := by
  induction xs with
  | nil => simp
  | cons a xs ih =>
    rw [List.flatMap_cons, List.length_append, even a, ih, List.length_cons, Nat.mul_succ, Nat.add_comm]

theorem blocks_prefix (even : ∀ a, (block a).length = width) (positive : 0 < width)
    (injective : Function.Injective block) {xs ys : List α} :
    xs.flatMap block <+: ys.flatMap block ↔ xs <+: ys := by
  induction xs generalizing ys with
  | nil => simp
  | cons a xs ih =>
    cases ys with
    | nil =>
      have filled : block a ≠ [] := List.ne_nil_of_length_pos ((even a).symm ▸ positive)
      simp [filled]
    | cons b ys =>
      rw [List.flatMap_cons, List.flatMap_cons, List.cons_prefix_cons, ← ih]
      constructor
      · rintro ⟨rest, joined⟩
        rw [List.append_assoc] at joined
        have apart := List.append_inj joined ((even a).trans (even b).symm)
        exact ⟨injective apart.1, rest, apart.2⟩
      · rintro ⟨rfl, inside⟩
        exact (List.prefix_append_right_inj (block a)).mpr inside

theorem occurs_blocks (even : ∀ a, (block a).length = width) (positive : 0 < width)
    (injective : Function.Injective block) {needle hay : List α} {p : Nat} :
    Occurs (needle.flatMap block) (hay.flatMap block) (width * p) ↔ Occurs needle hay p := by
  rw [Occurs, Occurs, length_blocks even, drop_blocks even, blocks_prefix even positive injective,
    Nat.mul_le_mul_left_iff positive]

end Blocks

end Offsets
