import Mathlib.Logic.Function.Iterate
import Mathlib.Data.BitVec

/-!
# Reflected cyclic redundancy checks

A register that is shifted towards its low bit, with a polynomial added when a one falls
out.  The shift is linear, from which follow the computation a byte at a time from a
table and the residue of data that is followed by its own check sequence.
-/

namespace Ncd15.Library

variable {w : Nat} (poly : BitVec w)

/-- One bit. -/
def crcShift (x : BitVec w) : BitVec w :=
  if x.getLsbD 0 then poly ^^^ (x >>> 1) else x >>> 1

/-- One byte, a bit at a time. -/
def crcByte (crc : BitVec w) (b : BitVec 8) : BitVec w :=
  (crcShift poly)^[8] (crc ^^^ b.setWidth w)

theorem crcShift_xor (x y : BitVec w) :
    crcShift poly (x ^^^ y) = crcShift poly x ^^^ crcShift poly y := by
  ext i bound
  unfold crcShift
  rw [BitVec.getLsbD_xor, BitVec.ushiftRight_xor_distrib]
  cases x.getLsbD 0 <;> cases y.getLsbD 0 <;>
    simp only [Bool.xor_true, Bool.xor_false, Bool.not_true, Bool.not_false, if_true,
      Bool.false_eq_true, if_false, BitVec.getElem_xor] <;>
    cases poly[i] <;> cases (x >>> 1)[i] <;> cases (y >>> 1)[i] <;> rfl

theorem crcShifts_xor (n : Nat) (x y : BitVec w) :
    (crcShift poly)^[n] (x ^^^ y) = (crcShift poly)^[n] x ^^^ (crcShift poly)^[n] y := by
  induction n generalizing x y with
  | zero => rfl
  | succ n ih =>
      rw [Function.iterate_succ_apply, Function.iterate_succ_apply, Function.iterate_succ_apply,
        crcShift_xor, ih]

/-- Zeros that fall out leave the polynomial out. -/
theorem crcShifts_of_clear {n : Nat} {x : BitVec w} (clear : ∀ i < n, x.getLsbD i = false) :
    (crcShift poly)^[n] x = x >>> n := by
  induction n with
  | zero => rw [Function.iterate_zero_apply, BitVec.ushiftRight_zero]
  | succ n ih =>
      have low : (x >>> n).getLsbD 0 = false := by
        rw [BitVec.getLsbD_ushiftRight]
        exact clear n (Nat.lt_succ_self n)
      rw [Function.iterate_succ_apply', ih fun i small => clear i (by omega), crcShift, low,
        if_neg Bool.false_ne_true, BitVec.shiftRight_add]

theorem crcShifts_shiftLeft (n : Nat) {x : BitVec w} (fits : (x <<< n) >>> n = x) :
    (crcShift poly)^[n] (x <<< n) = x := by
  rw [crcShifts_of_clear, fits]
  intro i small
  rw [BitVec.getLsbD_shiftLeft, decide_eq_true small, Bool.not_true, Bool.and_false,
    Bool.false_and]

theorem shifted_back (x : BitVec w) (n : Nat) : (((x >>> n) <<< n) >>> n) = x >>> n := by
  apply BitVec.eq_of_getLsbD_eq
  intro i bound
  simp only [BitVec.getLsbD_shiftLeft, BitVec.getLsbD_ushiftRight]
  by_cases inside : n + i < w
  · simp [inside]
  · simp [inside, BitVec.getLsbD_of_ge x (n + i) (by omega)]

/-- A byte at a time: the entry of the table for the low byte, and the other bytes moved down. -/
theorem crcByte_table (crc : BitVec w) (b : BitVec 8) :
    crcByte poly crc b =
      (crcShift poly)^[8] ((crc.setWidth 8 ^^^ b).setWidth w) ^^^ (crc >>> 8) := by
  have split : crc ^^^ b.setWidth w =
      (crc.setWidth 8 ^^^ b).setWidth w ^^^ ((crc >>> 8) <<< 8) := by
    apply BitVec.eq_of_getLsbD_eq
    intro i bound
    simp only [BitVec.getLsbD_xor, BitVec.getLsbD_setWidth, BitVec.getLsbD_shiftLeft,
      BitVec.getLsbD_ushiftRight, bound, decide_true, Bool.true_and]
    by_cases low : i < 8
    · simp [low]
    · simp [low, show 8 + (i - 8) = i by omega, BitVec.getLsbD_of_ge b i (by omega)]
  rw [crcByte, split, crcShifts_xor, crcShifts_shiftLeft poly 8 (shifted_back crc 8)]

/-- The bytes of a register, the lowest first. -/
def leBytes : Nat → BitVec w → List (BitVec 8)
  | 0, _ => []
  | n + 1, x => x.setWidth 8 :: leBytes n (x >>> 8)

/-- Bytes fed to the register one after the other are fed to it at once. -/
theorem foldl_leBytes {n : Nat} (fits : 8 * n ≤ w) (crc x : BitVec w) :
    (leBytes n x).foldl (crcByte poly) crc =
      (crcShift poly)^[8 * n] (crc ^^^ (x.setWidth (8 * n)).setWidth w) := by
  induction n generalizing crc x with
  | zero =>
      have none : (x.setWidth (8 * 0)).setWidth w = 0#w := by
        apply BitVec.eq_of_getLsbD_eq
        intro i bound
        simp [BitVec.getLsbD_setWidth]
      rw [none, BitVec.xor_zero]
      rfl
  | succ n ih =>
      have rest : ((((x >>> 8).setWidth (8 * n)).setWidth w) <<< 8) >>> 8 =
          ((x >>> 8).setWidth (8 * n)).setWidth w := by
        apply BitVec.eq_of_getLsbD_eq
        intro i bound
        simp only [BitVec.getLsbD_setWidth, BitVec.getLsbD_shiftLeft, BitVec.getLsbD_ushiftRight,
          bound, decide_true, Bool.true_and]
        by_cases inside : 8 + i < w
        · simp [inside, bound]
        · simp [inside, show ¬ i < 8 * n by omega]
      have joined : (x.setWidth 8).setWidth w ^^^
          ((((x >>> 8).setWidth (8 * n)).setWidth w) <<< 8) =
            (x.setWidth (8 * (n + 1))).setWidth w := by
        apply BitVec.eq_of_getLsbD_eq
        intro i bound
        simp only [BitVec.getLsbD_xor, BitVec.getLsbD_setWidth, BitVec.getLsbD_shiftLeft,
          BitVec.getLsbD_ushiftRight, bound, decide_true, Bool.true_and]
        by_cases low : i < 8
        · simp [low, show i < 8 * (n + 1) by omega]
        · simp [low, show 8 + (i - 8) = i by omega, show i - 8 < w by omega,
            show (i - 8 < 8 * n) = (i < 8 * (n + 1)) by rw [eq_iff_iff]; omega]
      calc (leBytes (n + 1) x).foldl (crcByte poly) crc
          = (crcShift poly)^[8 * n] ((crcShift poly)^[8] (crc ^^^ (x.setWidth 8).setWidth w) ^^^
              ((x >>> 8).setWidth (8 * n)).setWidth w) := ih (by omega) _ _
        _ = (crcShift poly)^[8 * n] ((crcShift poly)^[8] (crc ^^^ (x.setWidth 8).setWidth w ^^^
              ((((x >>> 8).setWidth (8 * n)).setWidth w) <<< 8))) := by
            rw [crcShifts_xor poly 8 (crc ^^^ _), crcShifts_shiftLeft poly 8 rest]
        _ = (crcShift poly)^[8 * (n + 1)] (crc ^^^ (x.setWidth (8 * (n + 1))).setWidth w) := by
            rw [BitVec.xor_assoc, joined, ← Function.iterate_add_apply, Nat.mul_succ]

/-- The residue: data with its complemented register behind it leaves the same register
whatever the data. -/
theorem foldl_residue {n : Nat} (whole : 8 * n = w) (start : BitVec w) (data : List (BitVec 8)) :
    (data ++ leBytes n (~~~ data.foldl (crcByte poly) start)).foldl (crcByte poly) start =
      (crcShift poly)^[w] (BitVec.allOnes w) := by
  subst whole
  rw [List.foldl_append, foldl_leBytes poly le_rfl, BitVec.setWidth_eq, BitVec.setWidth_eq,
    ← BitVec.not_xor_right, BitVec.xor_self, BitVec.not_zero]

end Ncd15.Library
