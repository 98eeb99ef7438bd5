import Mathlib.Data.Int.Bitwise
import Mathlib.Tactic.Positivity
import Mathlib.Tactic.Ring

/-! Shifts, or and and on integers of any size and sign, as Python has them: a number packed
from fields of a fixed width. -/
namespace Bits

theorem shiftLeft_succ (n : Int) (k : Nat) : n <<< (k + 1) = Int.bit false (n <<< k) := by
  rw [Int.bit_val, Int.shiftLeft_eq, Int.shiftLeft_eq, pow_succ, cond_false]
  ring

theorem natCast_eq_bit (m : Nat) : (m : Int) = Int.bit m.bodd (m.div2 : Nat) := by
  rw [Int.bit_coe_nat, Nat.bit_bodd_div2]

theorem lor_zero (n : Int) : Int.lor n 0 = n := by
  cases n with
  | ofNat n => simp [Int.lor]
  | negSucc n => simp [Int.lor, Nat.ldiff]

theorem lor_shiftLeft (n : Int) {m k : Nat} (fits : m < 2 ^ k) :
    Int.lor (n <<< k) m = n * 2 ^ k + m := by
  induction k generalizing m with
  | zero =>
    obtain rfl : m = 0 := by simpa using fits
    simp [lor_zero, Int.shiftLeft_eq]
  | succ k ih =>
    have half : m.div2 < 2 ^ k := by rw [Nat.div2_val]; omega
    have split : (m : Int) = 2 * (m.div2 : Nat) + cond m.bodd 1 0 := by
      rw [← Int.bit_val, ← natCast_eq_bit]
    calc Int.lor (n <<< (k + 1)) m
        = Int.bit m.bodd (Int.lor (n <<< k) (m.div2 : Nat)) := by
          rw [shiftLeft_succ, natCast_eq_bit m, Int.lor_bit, Bool.false_or]
      _ = 2 * (n * 2 ^ k + (m.div2 : Nat)) + cond m.bodd 1 0 := by rw [ih half, Int.bit_val]
      _ = n * 2 ^ (k + 1) + m := by rw [split, pow_succ]; ring

theorem land_mask (n : Int) (k : Nat) : Int.land n (2 ^ k - 1 : Nat) = n % 2 ^ k := by
  induction k generalizing n with
  | zero =>
    cases n with
    | ofNat n => simp [Int.land]
    | negSucc n => simp [Int.land, Nat.ldiff]
  | succ k ih =>
    have mask : ((2 ^ (k + 1) - 1 : Nat) : Int) = Int.bit true (2 ^ k - 1 : Nat) := by
      have := Nat.one_le_two_pow (n := k)
      rw [Int.bit_val]
      simp only [cond_true]
      omega
    have bound := Int.emod_lt_of_pos n.div2 (show (0 : Int) < 2 ^ k by positivity)
    have least := Int.emod_nonneg n.div2 (show (2 : Int) ^ k ≠ 0 by positivity)
    have parity : (0 : Int) ≤ cond n.bodd 1 0 ∧ (cond n.bodd 1 0 : Int) ≤ 1 := by
      cases n.bodd <;> simp
    have split : n = 2 * (n.div2 % 2 ^ k) + cond n.bodd 1 0 + 2 ^ (k + 1) * (n.div2 / 2 ^ k) := by
      conv_lhs => rw [← Int.bodd_add_div2 n, ← Int.emod_add_mul_ediv n.div2 (2 ^ k)]
      ring
    calc Int.land n (2 ^ (k + 1) - 1 : Nat)
        = 2 * (n.div2 % 2 ^ k) + cond n.bodd 1 0 := by
          conv_lhs => rw [← Int.bit_decomp n, mask, Int.land_bit, ih, Bool.and_true, Int.bit_val]
      _ = (2 * (n.div2 % 2 ^ k) + cond n.bodd 1 0) % 2 ^ (k + 1) :=
          (Int.emod_eq_of_lt (by omega) (by rw [pow_succ]; omega)).symm
      _ = n % 2 ^ (k + 1) := by conv_rhs => rw [split, Int.add_mul_emod_self_left]

end Bits
