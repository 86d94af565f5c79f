import Mathlib.Data.List.Basic

/-!
# Part of a list replaced

New elements in place of as many old ones from a position on.  Behind the end of
the list they are appended.
-/

namespace Ncd15.Library

variable {α : Type} {old new first second : List α} {pos i : Nat}

def splice (old : List α) (pos : Nat) (new : List α) : List α :=
  old.take pos ++ new ++ old.drop (pos + new.length)

@[simp]
theorem splice_nil (old : List α) (pos : Nat) : splice old pos [] = old := by
  simp [splice]

@[simp]
theorem length_splice (inside : pos ≤ old.length) :
    (splice old pos new).length = max old.length (pos + new.length) := by
  simp only [splice, List.length_append, List.length_take, List.length_drop]
  omega

theorem getElem?_splice (inside : pos ≤ old.length) :
    (splice old pos new)[i]? =
      if pos ≤ i ∧ i < pos + new.length then new[i - pos]? else old[i]? := by
  have front : (old.take pos).length = pos := List.length_take_of_le inside
  have middle : (old.take pos ++ new).length = pos + new.length := by
    rw [List.length_append, front]
  unfold splice
  rcases Nat.lt_or_ge i pos with before | after
  · rw [List.append_assoc, List.getElem?_append_left (by omega), if_neg (by omega),
      List.getElem?_take_of_lt before]
  rcases Nat.lt_or_ge i (pos + new.length) with within | behind
  · rw [List.getElem?_append_left (by omega), List.getElem?_append_right (by omega),
      front, if_pos ⟨after, within⟩]
  · rw [List.getElem?_append_right (by omega), middle, if_neg (by omega), List.getElem?_drop]
    congr 1
    omega

/-- Two pieces behind each other are one. -/
theorem splice_splice (inside : pos ≤ old.length) :
    splice (splice old pos first) (pos + first.length) second =
      splice old pos (first ++ second) := by
  apply List.ext_getElem?
  intro i
  have inside₁ : pos + first.length ≤ (splice old pos first).length := by
    rw [length_splice inside]
    omega
  rw [getElem?_splice inside₁, getElem?_splice inside, getElem?_splice inside, List.length_append]
  rcases Nat.lt_or_ge i (pos + first.length) with within | behind
  · rw [if_neg (show ¬ (pos + first.length ≤ i ∧ _) by omega)]
    by_cases after : pos ≤ i
    · rw [if_pos ⟨after, within⟩, if_pos (by omega), List.getElem?_append_left (by omega)]
    · rw [if_neg (by omega), if_neg (by omega)]
  · rw [if_neg (show ¬ (pos ≤ i ∧ i < pos + first.length) by omega)]
    by_cases before : i < pos + first.length + second.length
    · rw [if_pos ⟨behind, before⟩, if_pos (by omega), List.getElem?_append_right (by omega)]
      congr 1
      omega
    · rw [if_neg (by omega), if_neg (by omega)]

end Ncd15.Library
