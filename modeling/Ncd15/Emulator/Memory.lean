import Ncd15.Emulator.Bus
import Ncd15.Library.StructPack
import Mathlib.Tactic.IntervalCases

/-!
# Laws of the byte arrays

Loads and stores of one, two and four bytes: what a load depends on, what a
store leaves alone, and what a load returns after a store to the same place.
-/

namespace Ncd15.Emulator

open Ncd15.Library

def Size.bytes : Size → Nat
  | .one => 1
  | .two => 2
  | .four => 4

/-- The part of a value that an access of the given size moves. -/
def Size.low (value : Word) : Size → Word
  | .one => (value.setWidth 8).setWidth 32
  | .two => (value.setWidth 16).setWidth 32
  | .four => value

theorem Size.bytes_pos (size : Size) : 0 < size.bytes := by
  cases size <;> decide

theorem ldBe_congr {first second : Nat → BitVec 8} {off off' : Nat} {size : Size}
    (same : ∀ i < size.bytes, first (off + i) = second (off' + i)) :
    ldBe first off size = ldBe second off' size := by
  have at0 : first off = second off' := same 0 size.bytes_pos
  cases size with
  | one => simp only [ldBe, at0]
  | two => simp only [ldBe, at0, same 1 (by decide)]
  | four => simp only [ldBe, at0, same 1 (by decide), same 2 (by decide), same 3 (by decide)]

theorem stBe_outside (bytes : Nat → BitVec 8) {off i : Nat} (value : Word) {size : Size}
    (outside : i < off ∨ off + size.bytes ≤ i) : stBe bytes off value size i = bytes i := by
  cases size <;> simp only [Size.bytes] at outside <;> simp only [stBe] <;>
    repeat rw [Function.update_of_ne (by omega)]

/-- The byte of a value that a store of `size` bytes puts at offset `i`. -/
theorem stBe_inside (bytes : Nat → BitVec 8) (off : Nat) (value : Word) {size : Size} {i : Nat}
    (inside : i < size.bytes) :
    (stBe bytes off value size (off + i)).toNat =
      value.toNat / 2 ^ (8 * (size.bytes - 1 - i)) % 2 ^ 8 := by
  cases size <;> simp only [Size.bytes] at inside ⊢ <;> interval_cases i <;>
    simp [stBe, Nat.shiftRight_eq_div_pow]

theorem toNat_ldBe_two (bytes : Nat → BitVec 8) (off : Nat) :
    (ldBe bytes off .two).toNat = (bytes off).toNat * 2 ^ 8 + (bytes (off + 1)).toNat := by
  rw [← toNat_half]
  exact BitVec.toNat_setWidth_of_le (by decide)

theorem ldBe_stBe (bytes : Nat → BitVec 8) (off : Nat) (value : Word) (size : Size) :
    ldBe (stBe bytes off value size) off size = size.low value := by
  have bound := value.isLt
  apply BitVec.eq_of_toNat_eq
  cases size with
  | one => simp [ldBe, stBe, Size.low]
  | two =>
      have byte0 := stBe_inside bytes off value (show 0 < Size.two.bytes by decide)
      have byte1 := stBe_inside bytes off value (show 1 < Size.two.bytes by decide)
      simp only [Size.bytes, Nat.add_zero] at byte0 byte1
      rw [toNat_ldBe_two, byte0, byte1]
      simp only [Size.low, BitVec.toNat_setWidth]
      omega
  | four =>
      have byte0 := stBe_inside bytes off value (show 0 < Size.four.bytes by decide)
      have byte1 := stBe_inside bytes off value (show 1 < Size.four.bytes by decide)
      have byte2 := stBe_inside bytes off value (show 2 < Size.four.bytes by decide)
      have byte3 := stBe_inside bytes off value (show 3 < Size.four.bytes by decide)
      simp only [Size.bytes, Nat.add_zero] at byte0 byte1 byte2 byte3
      refine (toNat_word _ off).trans ?_
      rw [byte0, byte1, byte2, byte3, Size.low]
      omega

theorem toNat_mipsVaToPa (va : Word) :
    (mipsVaToPa va).toNat =
      if 0xC0000000 ≤ va.toNat then va.toNat
      else if 0xA0000000 ≤ va.toNat then va.toNat - 0xA0000000
      else if 0x80000000 ≤ va.toNat then va.toNat - 0x80000000
      else va.toNat := by
  unfold mipsVaToPa
  split
  case isTrue kseg2 => exact (if_pos (show 0xC0000000 ≤ va.toNat from kseg2)).symm
  case isFalse notKseg2 =>
    rw [if_neg (show ¬ 0xC0000000 ≤ va.toNat from notKseg2)]
    split
    case isTrue kseg1 =>
      rw [if_pos (show 0xA0000000 ≤ va.toNat from kseg1)]
      exact BitVec.toNat_sub_of_le kseg1
    case isFalse notKseg1 =>
      rw [if_neg (show ¬ 0xA0000000 ≤ va.toNat from notKseg1)]
      split
      case isTrue kseg0 =>
        rw [if_pos (show 0x80000000 ≤ va.toNat from kseg0)]
        exact BitVec.toNat_sub_of_le kseg0
      case isFalse kuseg => exact (if_neg (show ¬ 0x80000000 ≤ va.toNat from kuseg)).symm

end Ncd15.Emulator
