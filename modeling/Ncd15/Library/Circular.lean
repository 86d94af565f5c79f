import Mathlib.Algebra.GroupWithZero.Nat
import Mathlib.Data.List.Basic
import Mathlib.Logic.Function.Basic

/-!
# Circular buffers

A buffer of slots that are written in turn, with the next slot to write and a count that stops
when all are in use.  Counted back from the newest, its entries are those of a list that grows
for ever, as far as there are slots.
-/

namespace Ncd15.Library

variable {α β : Type} {depth : Nat} [NeZero depth]

/-- The slots, the next one to write, and how many are in use. -/
structure Circular (depth : Nat) (α : Type) where
  slots : Fin depth → α
  head : Fin depth
  count : Nat
  count_le : count ≤ depth

namespace Circular

/-- No slot is in use. -/
def empty (start : α) : Circular depth α where
  slots _ := start
  head := 0
  count := 0
  count_le := Nat.zero_le depth

/-- The next slot changed, and in use. -/
def put (c : Circular depth α) (change : α → α) : Circular depth α where
  slots := Function.update c.slots c.head (change (c.slots c.head))
  head := Fin.ofNat depth (c.head + 1)
  count := if c.count < depth then c.count + 1 else c.count
  count_le := by
    have le := c.count_le
    split <;> omega

/-- The slot so many places back from the next one. -/
def back (c : Circular depth α) (i : Nat) : Fin depth := Fin.ofNat depth (c.head + depth - i)

/-- The entry so many places back, 1 for the newest. -/
def recent (c : Circular depth α) (i : Nat) : Option α :=
  if i < 1 ∨ c.count < i then none else some (c.slots (c.back i))

variable {c : Circular depth α} {change : α → α} {i : Nat}

theorem back_put_one : (c.put change).back 1 = c.head := by
  have pos : 0 < depth := Nat.pos_of_neZero depth
  have lt := c.head.isLt
  apply Fin.ext
  change ((c.head.val + 1) % depth + depth - 1) % depth = c.head.val
  rw [Nat.add_sub_assoc pos]
  by_cases last : c.head.val + 1 = depth
  · rw [last, Nat.mod_self, Nat.zero_add, Nat.mod_eq_of_lt (by omega)]
    omega
  · rw [Nat.mod_eq_of_lt (by omega : c.head.val + 1 < depth)]
    rw [show c.head.val + 1 + (depth - 1) = c.head.val + depth by omega, Nat.add_mod_right]
    exact Nat.mod_eq_of_lt lt

theorem back_put_succ (le : i + 1 ≤ depth) : (c.put change).back (i + 1) = c.back i := by
  have lt := c.head.isLt
  apply Fin.ext
  change ((c.head.val + 1) % depth + depth - (i + 1)) % depth = (c.head.val + depth - i) % depth
  rw [Nat.add_sub_assoc le]
  by_cases last : c.head.val + 1 = depth
  · rw [last, Nat.mod_self, Nat.zero_add,
      show c.head.val + depth - i = depth - (i + 1) + depth by omega, Nat.add_mod_right]
  · rw [Nat.mod_eq_of_lt (by omega : c.head.val + 1 < depth)]
    rw [show c.head.val + 1 + (depth - (i + 1)) = c.head.val + depth - i by omega]

/-- Fewer places back than a whole turn is another slot. -/
theorem back_ne_head (pos : 0 < i) (lt : i < depth) : c.back i ≠ c.head := by
  intro same
  have value := congrArg Fin.val same
  have head := c.head.isLt
  change (c.head.val + depth - i) % depth = c.head.val at value
  by_cases wraps : c.head.val < i
  · rw [Nat.mod_eq_of_lt (by omega)] at value
    omega
  · rw [show c.head.val + depth - i = c.head.val - i + depth by omega, Nat.add_mod_right,
      Nat.mod_eq_of_lt (by omega)] at value
    omega

theorem recent_put_one : (c.put change).recent 1 = some (change (c.slots c.head)) := by
  have le := c.count_le
  have pos : 0 < depth := Nat.pos_of_neZero depth
  have used : ¬ (1 < 1 ∨ (c.put change).count < 1) := by
    unfold put
    dsimp only
    split <;> omega
  rw [recent, if_neg used, back_put_one]
  exact congrArg some (Function.update_self _ _ _)

theorem recent_put_succ (pos : 0 < i) :
    (c.put change).recent (i + 1) = if i < depth then c.recent i else none := by
  have le := c.count_le
  have count : (c.put change).count = if c.count < depth then c.count + 1 else c.count := rfl
  rw [recent, recent, count]
  by_cases lt : i < depth
  · rw [if_pos lt, back_put_succ lt]
    by_cases used : c.count < i
    · have hidden : (if c.count < depth then c.count + 1 else c.count) < i + 1 := by
        split <;> omega
      rw [if_pos (.inr hidden), if_pos (.inr used)]
    · have free : ¬ (i + 1 < 1 ∨ (if c.count < depth then c.count + 1 else c.count) < i + 1) := by
        split <;> omega
      rw [if_neg free, if_neg (by omega)]
      exact congrArg some (Function.update_of_ne (back_ne_head pos lt) _ _)
  · have hidden : (if c.count < depth then c.count + 1 else c.count) < i + 1 := by
      split <;> omega
    rw [if_neg lt, if_pos (.inr hidden)]

/-- The entries, counted back from the newest, look like those at the end of a list. -/
def Holds (c : Circular depth α) (view : α → β) (list : List β) : Prop :=
  ∀ i, (c.recent (i + 1)).map view = if i < depth then list.reverse[i]? else none

theorem Holds.empty {view : α → β} (start : α) :
    (empty start : Circular depth α).Holds view [] := by
  intro i
  rw [recent, if_pos (.inr (Nat.succ_pos i))]
  simp

/-- A slot that is written is one more entry of the list. -/
theorem Holds.put {view : α → β} {list : List β} (holds : c.Holds view list)
    (change : α → α) :
    (c.put change).Holds view (list ++ [view (change (c.slots c.head))]) := by
  intro i
  rw [List.reverse_append, List.reverse_singleton, List.singleton_append]
  cases i with
  | zero => rw [recent_put_one, if_pos (Nat.pos_of_neZero depth)]; rfl
  | succ i =>
      rw [recent_put_succ (Nat.succ_pos i), List.getElem?_cons_succ]
      by_cases lt : i + 1 < depth
      · rw [if_pos lt, if_pos lt, holds i, if_pos (Nat.lt_of_succ_lt lt)]
      · rw [if_neg lt, if_neg lt, Option.map_none]

/-- The newest entry is the last one of the list. -/
theorem Holds.newest {view : α → β} {list : List β} (holds : c.Holds view list) :
    (c.recent 1).map view = list.getLast? := by
  rw [holds 0, if_pos (Nat.pos_of_neZero depth), List.getLast?_eq_head?_reverse,
    List.head?_eq_getElem?]

end Circular

end Ncd15.Library
