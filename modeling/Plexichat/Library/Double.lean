import Mathlib.Algebra.Order.Field.Rat
import Mathlib.Order.WithBot

/-! The floats of Python: the values of binary64, a zero being one value, with `<` and `==`, and the
float of an integer. A NaN is the object it is, because the comparison of two tuples asks for that
first; none is an object that nothing else refers to. -/
inductive Double where
  | nan (object : Option Nat)
  | minusInfinity
  | finite (q : ℚ)
  | infinity
  deriving DecidableEq

namespace Double

/-- `a < b`, which no NaN is part of. -/
def lt : Double → Double → Bool
  | finite p, finite q => p < q
  | finite _, infinity => true
  | minusInfinity, finite _ => true
  | minusInfinity, infinity => true
  | _, _ => false

def isNan : Double → Bool
  | nan _ => true
  | _ => false

/-- `a == b`; a NaN is not even equal to itself. -/
def eq (a b : Double) : Bool := !a.isNan && a = b

/-- `a is b or a == b`. -/
def alike (a b : Double) : Bool := a ≠ nan none && a = b

def neg : Double → Double
  | nan _ => nan none
  | minusInfinity => infinity
  | finite q => finite (-q)
  | infinity => minusInfinity

/-- `n / 2 ^ shift` to the nearest integer, from the middle to the even one. -/
def roundEven (n shift : Nat) : Nat :=
  let low := n % 2 ^ shift
  if 2 ^ shift < 2 * low ∨ 2 ^ shift = 2 * low ∧ n / 2 ^ shift % 2 = 1 then n / 2 ^ shift + 1
  else n / 2 ^ shift

/-- `float(n)`; none is OverflowError. -/
def ofInt (n : Int) : Option Double :=
  let shift := n.natAbs.log2 + 1 - 53
  let rounded := roundEven n.natAbs shift * 2 ^ shift
  if rounded < 2 ^ 1024 then some (finite (n.sign * rounded)) else none

def rank : Double → WithBot (WithTop ℚ)
  | nan _ => ⊥
  | minusInfinity => ⊥
  | finite q => ((q : WithTop ℚ) : WithBot (WithTop ℚ))
  | infinity => ((⊤ : WithTop ℚ) : WithBot (WithTop ℚ))

variable {a b : Double}

theorem lt_iff_rank (ha : a.isNan = false) (hb : b.isNan = false) :
    a.lt b = true ↔ a.rank < b.rank := by
  cases a <;> cases b <;> simp_all [lt, rank, isNan]
  exact WithBot.coe_lt_coe.mpr (WithTop.coe_lt_top _)

theorem eq_iff_rank (ha : a.isNan = false) (hb : b.isNan = false) :
    a.eq b = true ↔ a.rank = b.rank := by
  cases a <;> cases b <;> simp_all [eq, rank, isNan]

theorem alike_eq (ha : a.isNan = false) : a.alike b = a.eq b := by
  cases a <;> simp_all [eq, alike, isNan]

theorem lt_nan (nans : a.isNan = true ∨ b.isNan = true) : a.lt b = false := by
  cases a <;> cases b <;> simp_all [lt, isNan]

theorem eq_nan (nans : a.isNan = true ∨ b.isNan = true) : a.eq b = false := by
  cases a <;> cases b <;> simp_all [eq, isNan]

@[simp] theorem isNan_finite (q : ℚ) : (finite q).isNan = false := rfl

theorem neg_isNan : a.neg.isNan = a.isNan := by
  cases a <;> rfl

theorem neg_lt_neg : a.neg.lt b.neg = b.lt a := by
  cases a <;> cases b <;> simp [lt, neg]

theorem neg_eq_neg : a.neg.eq b.neg = a.eq b := by
  cases a <;> cases b <;> simp [eq, neg, isNan]

end Double
