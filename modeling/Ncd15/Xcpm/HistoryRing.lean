import Ncd15.Library.Circular
import Ncd15.Xcpm.LineEditor
import Mathlib.Data.List.TakeWhile

/-!
# The history ring

`history_add` copies a line over the oldest of the rows of `hist_buf`, unless it is empty or the
newest row holds the same line but for case.  What `history_get` returns are the last lines of
the list of those that were kept.
-/

namespace Ncd15.Xcpm

open Ncd15.Library

section Model

/-- `strieq`, on strings that end with a NUL behind their characters. -/
def strieq : List UInt8 → List UInt8 → Bool
  | a :: as, b :: bs => if toUpper a ≠ toUpper b then false else strieq as bs
  | as, bs => as = [] && bs = []

/-- A row of `hist_buf`, which ends with a NUL whatever is copied to it. -/
structure HistLine where
  row : Buffer lineMax
  nul : row.get (lineMax - 1) = 0

/-- The string in a row. -/
def HistLine.text (l : HistLine) : List UInt8 := (l.row.slice 0 lineMax).takeWhile (· ≠ 0)

/-- The loop of `history_add` and the NUL behind what it copies. -/
def HistLine.copy (line : List UInt8) (l : HistLine) : HistLine where
  row :=
    let n := clamp line.length
    (l.row.blit 0 (line.take n)).blit n [0]
  nul := by
    have le := clamp_le line.length
    have copied : (line.take (clamp line.length)).length ≤ clamp line.length :=
      List.length_take_le _ _
    have inside : clamp line.length < lineMax := Nat.lt_succ_of_le le
    rw [Buffer.get_blit_singleton _ inside]
    by_cases last : lineMax - 1 = clamp line.length
    · exact if_pos last
    · have behind : 0 + (line.take (clamp line.length)).length ≤ lineMax - 1 := by
        rw [Nat.zero_add]
        exact copied.trans le
      rw [if_neg last, Buffer.get_blit_of_ge _ behind, l.nul]

/-- `hist_buf`, `hist_head` and `hist_count`. -/
abbrev HistBuf := Circular historyDepth HistLine

/-- The ring before the first line. -/
def HistBuf.start : HistBuf := Circular.empty { row := Buffer.zero, nul := Buffer.get_zero _ }

/-- `history_add`. -/
def historyAdd (h : HistBuf) (line : List UInt8) : HistBuf :=
  if line = [] then h
  else if 0 < h.count ∧ strieq (h.slots (h.back 1)).text line then h
  else h.put (HistLine.copy line)

/-- `history_get`; `none` stands for the null pointer. -/
def historyGet (h : HistBuf) (back : Int) : Option (List UInt8) :=
  if back < 1 ∨ (h.count : Int) < back then none
  else some (h.slots (h.back back.toNat)).text

end Model

section Lines

variable {line : List UInt8} {l : HistLine}

theorem HistLine.text_copy (clean : 0 ∉ line) :
    (l.copy line).text = line.take (clamp line.length) := by
  have inside : clamp line.length < lineMax := Nat.lt_succ_of_le (clamp_le line.length)
  have stored : (line.take (clamp line.length)).length = clamp line.length := by
    rw [List.length_take]
    unfold clamp
    split <;> omega
  have parts : (l.copy line).row.slice 0 lineMax =
      (l.copy line).row.slice 0 (clamp line.length) ++
        ((l.copy line).row.slice (clamp line.length) 1 ++
          (l.copy line).row.slice (clamp line.length + 1) (lineMax - (clamp line.length + 1))) := by
    have whole := Buffer.slice_add (l.copy line).row 0 (clamp line.length)
      (1 + (lineMax - (clamp line.length + 1)))
    rw [Nat.zero_add, Buffer.slice_add _ (clamp line.length) 1] at whole
    rw [← whole]
    congr 1
    omega
  have front : (l.copy line).row.slice 0 (clamp line.length) =
      line.take (clamp line.length) := by
    have copied : (l.row.blit 0 (line.take (clamp line.length))).slice 0
        (line.take (clamp line.length)).length = line.take (clamp line.length) :=
      Buffer.slice_blit_self _ 0 _ (by rw [stored]; omega)
    rw [stored] at copied
    rw [copy, Buffer.slice_blit_of_disjoint _ (.inl (Nat.le_of_eq (Nat.zero_add _))), copied]
  have last : (l.copy line).row.slice (clamp line.length) 1 = [0] :=
    Buffer.slice_blit_self _ _ [0] inside
  have solid : ∀ c ∈ line.take (clamp line.length), decide (c ≠ 0) = true := by
    intro c member
    rw [decide_eq_true_iff]
    rintro rfl
    exact clean (List.mem_of_mem_take member)
  rw [text, parts, front, last, List.takeWhile_append_of_pos solid]
  simp

theorem HistLine.text_copy_of_lt (clean : 0 ∉ line) (short : line.length < lineMax) :
    (l.copy line).text = line := by
  have all : clamp line.length = line.length := if_neg (Nat.not_le.mpr short)
  rw [text_copy clean, all, List.take_length]

theorem strieq_iff (a b : List UInt8) :
    strieq a b = true ↔ a.map toUpper = b.map toUpper := by
  fun_induction strieq a b with
  | case1 a as b bs other => simp [other]
  | case2 a as b bs same ih =>
      rw [ih, List.map_cons, List.map_cons, not_not.mp same]
      simp
  | case3 as bs not_cons =>
      cases as with
      | nil => cases bs <;> simp
      | cons a as =>
          cases bs with
          | nil => simp
          | cons b bs => exact absurd rfl (not_cons a as b bs rfl)

end Lines

section Refinement

variable {h : HistBuf} {kept : List (List UInt8)} {line : List UInt8} {lines : List (List UInt8)}

/-- One more line of a list that keeps no empty line, and none that equals the line before it
but for case. -/
def keepLine (kept : List (List UInt8)) (line : List UInt8) : List (List UInt8) :=
  if line = [] ∨ kept.getLast?.map (·.map toUpper) = some (line.map toUpper) then kept
  else kept ++ [line]

/-- The lines that are kept. -/
def keptLines (lines : List (List UInt8)) : List (List UInt8) := lines.foldl keepLine []

/-- The test against the newest row is the test against the line kept last. -/
theorem newest_iff (holds : h.Holds HistLine.text kept) :
    (0 < h.count ∧ strieq (h.slots (h.back 1)).text line = true) ↔
      kept.getLast?.map (·.map toUpper) = some (line.map toUpper) := by
  rw [← holds.newest, Circular.recent]
  by_cases used : 0 < h.count
  · rw [if_neg (by omega), strieq_iff]
    simp [used]
  · rw [if_pos (by omega)]
    simp [used]

theorem historyAdd_holds (holds : h.Holds HistLine.text kept) (clean : 0 ∉ line)
    (short : line.length < lineMax) :
    (historyAdd h line).Holds HistLine.text (keepLine kept line) := by
  rw [historyAdd, keepLine]
  by_cases empty : line = []
  · rw [if_pos empty, if_pos (.inl empty)]
    exact holds
  · rw [if_neg empty]
    by_cases same : 0 < h.count ∧ strieq (h.slots (h.back 1)).text line = true
    · rw [if_pos same, if_pos (.inr ((newest_iff holds).mp same))]
      exact holds
    · have new : ¬ (line = [] ∨ kept.getLast?.map (·.map toUpper) = some (line.map toUpper)) := by
        rw [not_or, ← newest_iff holds]
        exact ⟨empty, same⟩
      have stored := holds.put (HistLine.copy line)
      rw [HistLine.text_copy_of_lt clean short] at stored
      rw [if_neg same, if_neg new]
      exact stored

theorem foldl_historyAdd_holds (holds : h.Holds HistLine.text kept)
    (fits : ∀ line ∈ lines, 0 ∉ line ∧ line.length < lineMax) :
    (lines.foldl historyAdd h).Holds HistLine.text (lines.foldl keepLine kept) := by
  induction lines generalizing h kept with
  | nil => exact holds
  | cons line lines ih =>
      obtain ⟨clean, short⟩ := fits line List.mem_cons_self
      apply ih (historyAdd_holds holds clean short)
      exact fun later member => fits later (List.mem_cons_of_mem line member)

theorem historyGet_eq (h : HistBuf) (i : Nat) :
    historyGet h (i + 1 : Nat) = (h.recent (i + 1)).map HistLine.text := by
  have same : ((i + 1 : Nat) : Int) < 1 ∨ (h.count : Int) < (i + 1 : Nat) ↔
      i + 1 < 1 ∨ h.count < i + 1 := by omega
  rw [historyGet, Circular.recent]
  by_cases none : i + 1 < 1 ∨ h.count < i + 1
  · rw [if_pos (same.mpr none), if_pos none, Option.map_none]
  · rw [if_neg (mt same.mp none), if_neg none]
    rfl

/-- After any lines, `history_get` returns the last ones that were kept, the newest first, and
the null pointer for every other index. -/
theorem history_refines (fits : ∀ line ∈ lines, 0 ∉ line ∧ line.length < lineMax) (back : Int) :
    historyGet (lines.foldl historyAdd .start) back =
      if 1 ≤ back then ((keptLines lines).reverse.take historyDepth)[(back - 1).toNat]?
      else none := by
  have holds : (lines.foldl historyAdd .start).Holds HistLine.text (keptLines lines) :=
    foldl_historyAdd_holds (Circular.Holds.empty _) fits
  by_cases pos : 1 ≤ back
  · obtain ⟨i, rfl⟩ : ∃ i : Nat, back = (i + 1 : Nat) := ⟨(back - 1).toNat, by omega⟩
    rw [if_pos pos, historyGet_eq, holds i, List.getElem?_take]
    simp
  · rw [if_neg pos, historyGet, if_pos (.inl (by omega))]

/-- Three lines, two of them the same but for case. -/
theorem history_of_three :
    historyGet ([ascii "ls", ascii "LS", ascii "pwd"].foldl historyAdd .start) 2 =
      if 1 ≤ (2 : Int) then
        ((keptLines [ascii "ls", ascii "LS", ascii "pwd"]).reverse.take historyDepth)[
          ((2 : Int) - 1).toNat]?
      else none :=
  history_refines (by decide) 2

end Refinement

section Editor

theorem HistLine.noNul (l : HistLine) : 0 ∉ l.text := fun member => by
  simpa using List.mem_takeWhile_imp member

/-- The NUL at the end of a row keeps its string shorter than the row. -/
theorem HistLine.length_lt (l : HistLine) : l.text.length < lineMax := by
  have nul : (0 : UInt8) ∈ l.row.slice 0 lineMax := by
    rw [← l.nul]
    exact List.mem_map.mpr ⟨79, by decide, rfl⟩
  have size : (l.row.slice 0 lineMax).length = lineMax := by simp [Buffer.slice]
  have part : l.text.Sublist (l.row.slice 0 lineMax) := List.takeWhile_sublist _
  apply Nat.lt_of_le_of_ne (part.length_le.trans_eq size)
  intro whole
  rw [← part.eq_of_length (whole.trans size.symm)] at nul
  exact l.noNul nul

/-- The ring as the line editor reads it. -/
def HistBuf.toHistory (h : HistBuf) : History where
  rows i :=
    { text := (h.slots i).text, length_lt := (h.slots i).length_lt, noNul := (h.slots i).noNul }
  head := h.head
  count := h.count
  count_le := h.count_le

/-- What the line editor recalls is what `history_get` returns. -/
theorem toHistory_get (h : HistBuf) (i : Nat) : h.toHistory.get i = historyGet h i := by
  have count : h.toHistory.count = h.count := rfl
  rw [History.get, historyGet, count]
  by_cases none : i < 1 ∨ h.count < i
  · rw [if_pos none, if_pos (by omega)]
  · rw [if_neg none, if_neg (by omega)]
    rfl

end Editor

end Ncd15.Xcpm
