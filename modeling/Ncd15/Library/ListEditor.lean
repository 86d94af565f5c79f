import Mathlib.Data.List.Basic
import Mathlib.Data.List.GetD

/-!
# Text with a cursor

What an editor of a single text does: it inserts at the cursor, deletes before it, and moves it
by one place.  The cursor is where the text is cut in two, so that it always lies in the text.
-/

namespace Ncd15.Library

/-- A text, and the cursor in front of one of its characters or behind the last. -/
structure ListEditor (α : Type) where
  before : List α
  after : List α

namespace ListEditor

variable {α : Type}

/-- A text with the cursor at its start. -/
def start (text : List α) : ListEditor α where
  before := []
  after := text

def text (e : ListEditor α) : List α := e.before ++ e.after

def length (e : ListEditor α) : Nat := e.text.length

def cursor (e : ListEditor α) : Nat := e.before.length

/-- A character comes in front of the cursor. -/
def insert (c : α) (e : ListEditor α) : ListEditor α where
  before := e.before ++ [c]
  after := e.after

/-- The character in front of the cursor goes, if there is one. -/
def erase (e : ListEditor α) : ListEditor α where
  before := e.before.dropLast
  after := e.after

def left (e : ListEditor α) : ListEditor α where
  before := e.before.dropLast
  after := e.before.getLast?.toList ++ e.after

def right (e : ListEditor α) : ListEditor α where
  before := e.before ++ e.after.head?.toList
  after := e.after.tail

variable (c d : α) (e : ListEditor α)

@[simp] theorem length_text : e.text.length = e.length := rfl

theorem cursor_le_length : e.cursor ≤ e.length := by
  rw [cursor, length, text, List.length_append]
  exact Nat.le_add_right _ _

@[simp] theorem length_insert : (e.insert c).length = e.length + 1 := by
  simp only [insert, length, text, List.length_append, List.length_singleton]
  omega

@[simp] theorem cursor_insert : (e.insert c).cursor = e.cursor + 1 := by
  rw [cursor, insert, List.length_append, List.length_singleton, cursor]

@[simp] theorem cursor_erase : e.erase.cursor = e.cursor - 1 := by
  rw [cursor, erase, List.length_dropLast, cursor]

theorem length_erase (pos : 0 < e.cursor) : e.erase.length = e.length - 1 := by
  rw [cursor] at pos
  simp only [erase, length, text, List.length_append, List.length_dropLast]
  omega

@[simp] theorem text_left : e.left.text = e.text := by
  rw [text, left, text, ← List.append_assoc]
  congr 1
  rcases List.eq_nil_or_concat' e.before with empty | ⟨front, c, ends⟩
  · rw [empty]
    rfl
  · rw [ends, List.dropLast_concat, List.getLast?_concat]
    rfl

@[simp] theorem cursor_left : e.left.cursor = e.cursor - 1 := by
  rw [cursor, left, List.length_dropLast, cursor]

@[simp] theorem text_right : e.right.text = e.text := by
  rw [text, right, text, List.append_assoc]
  congr 1
  cases e.after <;> rfl

theorem cursor_right (more : e.cursor < e.length) : e.right.cursor = e.cursor + 1 := by
  rw [length, text, List.length_append, cursor] at more
  rw [cursor, right, List.length_append, cursor]
  cases after : e.after with
  | nil => simp [after] at more
  | cons c rest => rfl

theorem erase_of_start (start : e.cursor = 0) : e.erase = e := by
  have empty : e.before = [] := List.length_eq_zero_iff.mp start
  cases e with
  | mk before after =>
      cases empty
      rfl

theorem right_of_end (last : e.length ≤ e.cursor) : e.right = e := by
  rw [length, text, List.length_append, cursor] at last
  have empty : e.after = [] := List.length_eq_zero_iff.mp (by omega)
  cases e with
  | mk before after =>
      cases empty
      rw [right, List.head?_nil, Option.toList_none, List.append_nil, List.tail_nil]

/-- Characters in front of the cursor stay, those behind it move up. -/
theorem getD_insert (i : Nat) :
    (e.insert c).text.getD i d =
      if i < e.cursor then e.text.getD i d else if i = e.cursor then c
        else e.text.getD (i - 1) d := by
  have inserted : (e.insert c).text = e.before ++ c :: e.after := List.append_assoc _ _ _
  rw [inserted, text, cursor]
  by_cases front : i < e.before.length
  · rw [if_pos front, List.getD_append _ _ _ _ front, List.getD_append _ _ _ _ front]
  · rw [if_neg front, List.getD_append_right _ _ _ _ (Nat.not_lt.mp front)]
    by_cases here : i = e.before.length
    · rw [if_pos here, here, Nat.sub_self, List.getD_cons_zero]
    · have behind : i - e.before.length = i - 1 - e.before.length + 1 := by omega
      rw [if_neg here, behind, List.getD_cons_succ, List.getD_append_right _ _ _ _ (by omega)]

/-- Characters in front of the deleted one stay, those behind it move down. -/
theorem getD_erase (pos : 0 < e.cursor) (i : Nat) :
    e.erase.text.getD i d =
      if i < e.cursor - 1 then e.text.getD i d else e.text.getD (i + 1) d := by
  rcases List.eq_nil_or_concat' e.before with empty | ⟨front, c, ends⟩
  · rw [cursor, empty] at pos
    exact absurd pos (Nat.lt_irrefl 0)
  · have erased : e.erase.text = front ++ e.after := by
      rw [text, erase, ends, List.dropLast_concat]
    have whole : e.text = front ++ c :: e.after := by
      rw [text, ends, List.append_assoc, List.singleton_append]
    have place : e.cursor - 1 = front.length := by
      rw [cursor, ends, List.length_append, List.length_singleton, Nat.add_sub_cancel]
    rw [erased, whole, place]
    by_cases before : i < front.length
    · rw [if_pos before, List.getD_append _ _ _ _ before, List.getD_append _ _ _ _ before]
    · have behind : i + 1 - front.length = i - front.length + 1 := by omega
      rw [if_neg before, List.getD_append_right _ _ _ _ (by omega),
        List.getD_append_right _ _ _ _ (by omega), behind, List.getD_cons_succ]

end ListEditor

end Ncd15.Library
