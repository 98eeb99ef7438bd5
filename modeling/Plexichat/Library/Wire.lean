import Mathlib.Data.UInt

/-! Unsigned numbers of a fixed width in bytes, the most significant byte first. -/
namespace Wire

def bytesOf : (width n : Nat) → List UInt8
  | 0, _ => []
  | width + 1, n => bytesOf width (n / 256) ++ [UInt8.ofNat n]

def pack (width n : Nat) : Option (List UInt8) :=
  if n < 256 ^ width then some (bytesOf width n) else none

def unpack (bytes : List UInt8) : Nat := bytes.foldl (fun n byte => n * 256 + byte.toNat) 0

theorem length_bytesOf (width n : Nat) : (bytesOf width n).length = width := by
  induction width generalizing n with
  | zero => rfl
  | succ width ih => simp [bytesOf, ih]

theorem unpack_append (bytes : List UInt8) (byte : UInt8) :
    unpack (bytes ++ [byte]) = unpack bytes * 256 + byte.toNat := by
  simp [unpack, List.foldl_append]

theorem unpack_bytesOf {width n : Nat} (fits : n < 256 ^ width) :
    unpack (bytesOf width n) = n := by
  induction width generalizing n with
  | zero =>
    have zero : n = 0 := by simpa using fits
    simp [bytesOf, unpack, zero]
  | succ width ih =>
    have high : n / 256 < 256 ^ width := by
      rw [Nat.pow_succ] at fits
      omega
    have byte : (UInt8.ofNat n).toNat = n % 256 := by simp
    rw [bytesOf, unpack_append, ih high, byte]
    omega

theorem unpack_lt (bytes : List UInt8) : unpack bytes < 256 ^ bytes.length := by
  induction bytes using List.reverseRecOn with
  | nil => simp [unpack]
  | append_singleton bytes byte ih =>
    have small := byte.toNat_lt
    rw [unpack_append, List.length_append, List.length_singleton, Nat.pow_succ]
    omega

theorem bytesOf_unpack (bytes : List UInt8) : bytesOf bytes.length (unpack bytes) = bytes := by
  induction bytes using List.reverseRecOn with
  | nil => rfl
  | append_singleton bytes byte ih =>
    have small := byte.toNat_lt
    have high : (unpack bytes * 256 + byte.toNat) / 256 = unpack bytes := by omega
    have low : UInt8.ofNat (unpack bytes * 256 + byte.toNat) = byte := by
      apply UInt8.toNat_inj.mp
      simp only [UInt8.toNat_ofNat']
      omega
    rw [List.length_append, List.length_singleton, bytesOf, unpack_append, high, low, ih]

theorem length_pack {width n : Nat} {bytes : List UInt8} (h : pack width n = some bytes) :
    bytes.length = width := by
  obtain ⟨-, rfl⟩ := (Option.ite_none_right_eq_some.mp h).imp_right Option.some.inj
  exact length_bytesOf width n

theorem unpack_pack {width n : Nat} {bytes : List UInt8} (h : pack width n = some bytes) :
    unpack bytes = n := by
  obtain ⟨fits, rfl⟩ := (Option.ite_none_right_eq_some.mp h).imp_right Option.some.inj
  exact unpack_bytesOf fits

theorem pack_unpack {width : Nat} {bytes : List UInt8} (h : bytes.length = width) :
    pack width (unpack bytes) = some bytes := by
  subst h
  rw [pack, if_pos (unpack_lt bytes), bytesOf_unpack]

end Wire
