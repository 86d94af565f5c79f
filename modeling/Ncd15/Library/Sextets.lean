import Mathlib.Algebra.GroupWithZero.Nat
import Mathlib.Data.Nat.Bits

/-!
# Three bytes as four sextets

Three bytes regrouped as four numbers of six bits, written with shifts and masks as programs
write it, and put together again.
-/

namespace Ncd15.Library

namespace Sextets

variable {a b c : Nat}

/-- Shifting left and setting the bits that are free is adding. -/
theorem or_eq_add {x y n : Nat} (small : y < 2 ^ n) : x <<< n ||| y = x * 2 ^ n + y := by
  rw [← Nat.shiftLeft_add_eq_or_of_lt small, Nat.shiftLeft_eq]

/-- The sextets. -/
def first (a : Nat) : Nat := a / 4
def second (a b : Nat) : Nat := a % 4 * 16 + b / 16
def third (b c : Nat) : Nat := b % 16 * 4 + c / 64
def fourth (c : Nat) : Nat := c % 64

theorem first_lt (a_lt : a < 256) : first a < 64 := by
  unfold first
  omega

theorem second_lt (b_lt : b < 256) : second a b < 64 := by
  unfold second
  omega

theorem third_lt (c_lt : c < 256) : third b c < 64 := by
  unfold third
  omega

theorem fourth_lt (c : Nat) : fourth c < 64 := Nat.mod_lt c (by decide)

/-- The bytes again. -/
theorem join_first (b_lt : b < 256) :
    first a <<< 2 ||| second a b >>> 4 = a := by
  have small : second a b >>> 4 < 2 ^ 2 := by
    rw [Nat.shiftRight_eq_div_pow]
    unfold second
    omega
  rw [or_eq_add small, Nat.shiftRight_eq_div_pow]
  unfold first second
  omega

theorem join_second (b_lt : b < 256) (c_lt : c < 256) :
    (second a b % 16) <<< 4 ||| third b c >>> 2 = b := by
  have small : third b c >>> 2 < 2 ^ 4 := by
    rw [Nat.shiftRight_eq_div_pow]
    unfold third
    omega
  rw [or_eq_add small, Nat.shiftRight_eq_div_pow]
  unfold second third
  omega

theorem join_third (c_lt : c < 256) : (third b c % 4) <<< 6 ||| fourth c = c := by
  rw [or_eq_add (fourth_lt c)]
  unfold third fourth
  omega

/-- The bits that are masked away are those that a byte has no room for. -/
theorem byte_of_masked {x y n : Nat} (small : y < 2 ^ n) (le : n ≤ 8) :
    UInt8.ofNat (x <<< n ||| y) = UInt8.ofNat ((x % 2 ^ (8 - n)) <<< n ||| y) := by
  have parts : 2 ^ 8 = 2 ^ (8 - n) * 2 ^ n := by rw [← Nat.pow_add, Nat.sub_add_cancel le]
  apply UInt8.toNat.inj
  rw [UInt8.toNat_ofNat', UInt8.toNat_ofNat', or_eq_add small, or_eq_add small, parts,
    ← Nat.mod_add_mod (x * 2 ^ n), Nat.mul_mod_mul_right]

end Sextets

end Ncd15.Library
