import Mathlib.Data.List.GetD
import Mathlib.Data.Nat.ModEq

/-!
# Sliding windows

The last `size` entries of a sequence that grows at its end, as a ring buffer
shows them: position `p` holds the latest entry whose index is `p` modulo
`size`, and what the window was filled with when there is none.
-/

namespace Ncd15.Library

variable {α : Type}

/-- The index of position `p` among the filling and the first `n` entries. -/
def slidingIndex (size n p : Nat) : Nat :=
  n + (p + (size - n % size)) % size

/-- The entry that a window shows at position `p` after `out`. -/
def slidingEntry (fill : α) (size : Nat) (out : List α) (p : Nat) : α :=
  (List.replicate size fill ++ out).getD (slidingIndex size out.length p) fill

section Index

variable {size n p : Nat}

theorem slidingIndex_lt (inside : p < size) : slidingIndex size n p < n + size :=
  Nat.add_lt_add_left (Nat.mod_lt _ (by omega)) n

theorem slidingIndex_mod (inside : p < size) : slidingIndex size n p % size = p := by
  have below : n % size < size := Nat.mod_lt n (by omega)
  have whole : n + (p + (size - n % size)) = p + size * (n / size + 1) := by
    have split := Nat.mod_add_div n size
    rw [Nat.mul_add, Nat.mul_one]
    omega
  rw [slidingIndex, Nat.add_mod_mod, whole, Nat.add_mul_mod_self_left, Nat.mod_eq_of_lt inside]

/-- Among `size` indices in a row only one has a given residue. -/
theorem eq_of_mod_eq_of_near {i j : Nat} (same : i % size = j % size) (first : n ≤ i)
    (last : i < n + size) (first' : n ≤ j) (last' : j < n + size) : i = j :=
  Nat.ModEq.eq_of_abs_lt same (abs_lt.mpr (by omega))

theorem slidingIndex_eq {i : Nat} (inside : p < size) (residue : i % size = p) (first : n ≤ i)
    (last : i < n + size) : slidingIndex size n p = i :=
  eq_of_mod_eq_of_near ((slidingIndex_mod inside).trans residue.symm) (Nat.le_add_right n _)
    (slidingIndex_lt inside) first last

theorem slidingIndex_succ (inside : p < size) (other : p ≠ n % size) :
    slidingIndex size (n + 1) p = slidingIndex size n p := by
  have low : n ≤ slidingIndex size n p := Nat.le_add_right n _
  have high := slidingIndex_lt (n := n) inside
  have residue := slidingIndex_mod (n := n) inside
  have moved : slidingIndex size n p ≠ n := by
    intro same
    rw [same] at residue
    exact other residue.symm
  exact slidingIndex_eq inside residue (by omega) (by omega)

theorem slidingIndex_succ_next (positive : 0 < size) :
    slidingIndex size (n + 1) (n % size) = n + size :=
  slidingIndex_eq (Nat.mod_lt n positive) (Nat.add_mod_right n size) (by omega) (by omega)

end Index

section Entry

variable {size p : Nat} (fill : α)

@[simp]
theorem slidingEntry_nil : slidingEntry fill size [] p = fill := by
  simp only [slidingEntry, List.append_nil, List.getD_eq_getElem?_getD, List.getElem?_replicate]
  split <;> rfl

/-- A new entry stands at its index modulo the size; the others stay. -/
theorem slidingEntry_snoc (out : List α) (entry : α) (inside : p < size) :
    slidingEntry fill size (out ++ [entry]) p =
      if p = out.length % size then entry else slidingEntry fill size out p := by
  have positive : 0 < size := by omega
  rw [slidingEntry, slidingEntry, List.length_append, List.length_singleton, ← List.append_assoc]
  split
  next here =>
    rw [here, slidingIndex_succ_next positive, List.getD_append_right _ _ _ _ (by simp; omega)]
    have last : out.length + size - (size + out.length) = 0 := by omega
    simp [last]
  next other =>
    rw [slidingIndex_succ inside other, List.getD_append]
    have high := slidingIndex_lt (n := out.length) inside
    simp only [List.length_append, List.length_replicate]
    omega

end Entry

end Ncd15.Library
