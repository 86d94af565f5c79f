import Mathlib.Data.List.Basic
import Mathlib.Tactic.Ring

/-!
# A list in blocks

A list is cut into blocks of one size, numbered from 1.  The last block is the
first one that is not full, and may be empty.
-/

namespace Ncd15.Library

variable {α : Type} (size : Nat) (file : List α)

def block (n : Nat) : List α := (file.drop (size * (n - 1))).take size

def lastBlock : Nat := file.length / size + 1

/-- The blocks from 1 to `count` in a row. -/
def firstBlocks (count : Nat) : List α :=
  (List.range count).flatMap fun i => block size file (i + 1)

variable {size file}

@[simp]
theorem firstBlocks_zero : firstBlocks size file 0 = [] := rfl

theorem firstBlocks_succ (count : Nat) :
    firstBlocks size file (count + 1) =
      firstBlocks size file count ++ block size file (count + 1) := by
  simp [firstBlocks, List.range_succ]

theorem firstBlocks_eq_take (count : Nat) :
    firstBlocks size file count = file.take (size * count) := by
  induction count with
  | zero => simp
  | succ count ih =>
      rw [firstBlocks_succ, ih, block, Nat.add_sub_cancel, Nat.mul_succ]
      exact (List.take_add).symm

theorem length_block (n : Nat) :
    (block size file n).length = min size (file.length - size * (n - 1)) := by
  simp [block]

theorem lastBlock_bounds (file : List α) (positive : 0 < size) :
    size * (lastBlock size file - 1) ≤ file.length ∧
      file.length < size * lastBlock size file := by
  rw [lastBlock, Nat.add_sub_cancel]
  exact ⟨Nat.mul_div_le file.length size, Nat.lt_mul_div_succ file.length positive⟩

theorem length_block_lt_iff (positive : 0 < size) {n : Nat} (first : 1 ≤ n)
    (last : n ≤ lastBlock size file) :
    (block size file n).length < size ↔ n = lastBlock size file := by
  obtain ⟨low, high⟩ := lastBlock_bounds file positive
  rw [length_block]
  constructor
  · intro short
    by_contra other
    have full : size * n ≤ size * (lastBlock size file - 1) :=
      Nat.mul_le_mul_left size (by omega)
    have split : size * n = size * (n - 1) + size := by
      rw [← Nat.mul_succ, Nat.succ_eq_add_one, Nat.sub_add_cancel first]
    omega
  · rintro rfl
    have split : size * lastBlock size file = size * (lastBlock size file - 1) + size := by
      rw [← Nat.mul_succ, Nat.succ_eq_add_one, Nat.sub_add_cancel first]
    omega

theorem length_block_le (n : Nat) : (block size file n).length ≤ size := by
  rw [length_block]
  exact Nat.min_le_left _ _

/-- All blocks in a row are the list. -/
theorem firstBlocks_lastBlock (positive : 0 < size) :
    firstBlocks size file (lastBlock size file) = file := by
  rw [firstBlocks_eq_take]
  exact List.take_of_length_le (lastBlock_bounds file positive).2.le

end Ncd15.Library
