import Mathlib.Data.List.Range
import Mathlib.Data.List.TakeDrop

/-! A sequence that is written in place, and its pieces of one width, the last of which may be
shorter. -/
namespace Slice

universe u

variable {α : Type u}

/-- `d` written at an offset, with `pad` up to an offset behind the end. -/
def write (pad : α) (f : List α) (offset : Nat) (d : List α) : List α :=
  (f.rightpad offset pad).take offset ++ d ++ f.drop (offset + d.length)

def piece (width : Nat) (f : List α) (i : Nat) : List α := (f.drop (i * width)).take width

/-- The width of a piece of a sequence of length `n`. -/
def room (width n i : Nat) : Nat := min width (n - i * width)

theorem write_inside (pad : α) {f d : List α} {offset : Nat} (inside : offset ≤ f.length) :
    write pad f offset d = f.take offset ++ d ++ f.drop (offset + d.length) := by
  have short : offset - f.length = 0 := Nat.sub_eq_zero_of_le inside
  simp only [write, List.rightpad, short, List.replicate_zero, List.append_nil]

theorem write_nil (pad : α) {f : List α} {offset : Nat} (inside : offset ≤ f.length) :
    write pad f offset [] = f := by
  rw [write_inside pad inside, List.append_nil, List.length_nil, Nat.add_zero,
    List.take_append_drop]

theorem getElem?_write {pad : α} {f d : List α} {offset : Nat} (fits : offset + d.length ≤ f.length)
    (k : Nat) : (write pad f offset d)[k]? =
      if offset ≤ k ∧ k < offset + d.length then d[k - offset]? else f[k]? := by
  have inside : offset ≤ f.length := by omega
  have front : (f.take offset).length = offset := by
    rw [List.length_take]
    omega
  rw [write_inside pad inside, List.append_assoc, List.getElem?_append, front]
  by_cases before : k < offset
  · have outside : ¬(offset ≤ k ∧ k < offset + d.length) := by omega
    rw [if_pos before, if_neg outside, List.getElem?_take_of_lt before]
  · rw [if_neg before, List.getElem?_append]
    by_cases within : k - offset < d.length
    · have here : offset ≤ k ∧ k < offset + d.length := by omega
      rw [if_pos within, if_pos here]
    · have outside : ¬(offset ≤ k ∧ k < offset + d.length) := by omega
      rw [if_neg within, if_neg outside, List.getElem?_drop]
      congr 1
      omega

theorem length_write {pad : α} {f d : List α} {offset : Nat}
    (fits : offset + d.length ≤ f.length) : (write pad f offset d).length = f.length := by
  have inside : offset ≤ f.length := by omega
  rw [write_inside pad inside, List.length_append, List.length_append, List.length_take, List.length_drop]
  omega

theorem room_le {width n i : Nat} (inside : i * width ≤ n) : i * width + room width n i ≤ n := by
  unfold room
  omega

theorem piece_write {pad : α} {width i : Nat} {f d : List α} (inside : i * width ≤ f.length)
    (whole : d.length = room width f.length i) : piece width (write pad f (i * width) d) i = d := by
  have fits : i * width + d.length ≤ f.length := whole ▸ room_le inside
  apply List.ext_getElem?
  intro k
  rw [piece, List.getElem?_take]
  by_cases small : k < width
  · rw [if_pos small, List.getElem?_drop, getElem?_write fits]
    by_cases within : k < d.length
    · have here : i * width ≤ i * width + k ∧ i * width + k < i * width + d.length := by omega
      rw [if_pos here, Nat.add_sub_cancel_left]
    · have outside : ¬(i * width ≤ i * width + k ∧ i * width + k < i * width + d.length) := by omega
      have ends : f.length ≤ i * width + k := by
        unfold room at whole
        omega
      rw [if_neg outside, List.getElem?_eq_none ends, List.getElem?_eq_none (Nat.not_lt.mp within)]
  · have short : d.length ≤ k := by
      unfold room at whole
      omega
    rw [if_neg small, List.getElem?_eq_none short]

theorem piece_write_ne {pad : α} {width i j : Nat} {f d : List α} (other : j ≠ i)
    (narrow : d.length ≤ width) (fits : i * width + d.length ≤ f.length) :
    piece width (write pad f (i * width) d) j = piece width f j := by
  apply List.ext_getElem?
  intro k
  rw [piece, piece, List.getElem?_take, List.getElem?_take]
  by_cases small : k < width
  · rw [if_pos small, if_pos small, List.getElem?_drop, List.getElem?_drop, getElem?_write fits]
    have outside : ¬(i * width ≤ j * width + k ∧ j * width + k < i * width + d.length) := by
      rcases Nat.lt_or_gt_of_ne other with before | after
      · have ahead : (j + 1) * width ≤ i * width := Nat.mul_le_mul_right width before
        rw [Nat.add_mul, Nat.one_mul] at ahead
        omega
      · have behind : (i + 1) * width ≤ j * width := Nat.mul_le_mul_right width after
        rw [Nat.add_mul, Nat.one_mul] at behind
        omega
    rw [if_neg outside]
  · rw [if_neg small, if_neg small]

theorem take_pieces (width : Nat) (f : List α) (n : Nat) :
    (List.range n).flatMap (piece width f) = f.take (n * width) := by
  induction n with
  | zero => simp
  | succ n ih =>
    rw [List.range_succ, List.flatMap_append, ih, List.flatMap_singleton, Nat.add_mul, Nat.one_mul,
      List.take_add, piece]

theorem pieces {width n : Nat} {f : List α} (enough : f.length ≤ n * width) :
    (List.range n).flatMap (piece width f) = f := by
  rw [take_pieces, List.take_of_length_le enough]

end Slice
