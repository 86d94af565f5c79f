import Ncd15.Library.Cursor
import Ncd15.Library.Watched
import Ncd15.Xcpm.WindowTenants

/-!
# Script lines

`submit_next_line` on the buffer of `_start`.  It stores characters up to the last place of
the buffer, and then the NUL behind them, which for a line of eighty characters or more is
outside.
-/

namespace Ncd15.Xcpm

open Ncd15.Library

section Source

/-- `out` and `ln` of `submit_next_line`. -/
structure LineOut where
  out : Watched ccpLineMax
  ln : Nat

namespace LineOut

/-- `if (ln < CCP_LINE_MAX) out[ln++] = c`. -/
def put (o : LineOut) (c : UInt8) : LineOut :=
  if o.ln < ccpLineMax then { out := o.out.store o.ln c, ln := o.ln + 1 } else o

/-- `out[ln] = 0`. -/
def terminate (o : LineOut) : LineOut := { o with out := o.out.store o.ln 0 }

/-- The line moved down over a leading `@`. -/
def strip (o : LineOut) : LineOut :=
  { out := o.out.storeAll id (fun w i => w.buf.get (i + 1)) (List.range o.ln), ln := o.ln - 1 }

end LineOut

/-- What a call of `submit_next_line` comes to: the length it returns, `none` for -1,
`*silent_out`, the buffer and the position, and whether it clears `active`. -/
structure LineScan where
  code : Option Nat
  silent : Bool
  out : Watched ccpLineMax
  pos : Nat
  finished : Bool

/-- A line that is returned. -/
def LineOut.deliver (o : LineOut) (pos : Nat) (finished : Bool) : LineScan :=
  if o.out.buf.get 0 = 64 then
    { code := some o.strip.ln, silent := true, out := o.strip.out, pos, finished }
  else { code := some o.ln, silent := false, out := o.out, pos, finished }

/-- What follows the loop. -/
def LineOut.endScript (o : LineOut) (pos : Nat) : LineScan :=
  if 0 < o.ln ∧ o.out.buf.get 0 ≠ 35 then o.terminate.deliver pos true
  else { code := none, silent := false, out := o.out, pos, finished := true }

/-- The loop of `submit_next_line`; the first number counts the bytes left. -/
def scanLine (script : Nat → UInt8) : Nat → Nat → LineOut → LineScan
  | 0, pos, o => o.endScript pos
  | left + 1, pos, o =>
      let c := script pos
      if c = 0x1A ∨ c = 0 then o.endScript (pos + 1)
      else if c = 13 then scanLine script left (pos + 1) o
      else if c = 10 then
        if o.ln = 0 ∨ o.terminate.out.buf.get 0 = 35 then
          scanLine script left (pos + 1) { o.terminate with ln := 0 }
        else o.terminate.deliver (pos + 1) false
      else scanLine script left (pos + 1) (o.put c)

/-- What the caller of `submit_next_line` sees beside the buffer: the result, `*silent_out`
and whether a script is active then. -/
structure LineResult where
  code : Option Nat
  silent : Bool
  active : Bool

/-- `submit_next_line` into a buffer. -/
def submitNextLineInto (out : Watched ccpLineMax) :
    Prog Window (LineResult × Watched ccpLineMax) := fun w =>
  if w.active submitBase = 0 then
    some (({ code := none, silent := false, active := false }, out), w)
  else
    let scan := scanLine (w.text submitBase) (w.len submitBase - w.pos submitBase)
      (w.pos submitBase) { out, ln := 0 }
    let moved := w.setPos submitBase scan.pos
    let w' := if scan.finished then moved.setActive submitBase 0 else moved
    let result : LineResult :=
      { code := scan.code, silent := scan.silent, active := w'.active submitBase ≠ 0 }
    some ((result, scan.out), w')

end Source

section Lines

/-- The lines of a script up to the first byte that ends it, without carriage returns. -/
def rawLines (text : List UInt8) : List (List UInt8) :=
  ((text.takeWhile fun c => c ≠ 0 && c ≠ 0x1A).filter (· ≠ 13)).splitOn 10

/-- A line that is neither empty nor a comment. -/
def IsCommand (line : List UInt8) : Prop := line ≠ [] ∧ line.head? ≠ some 35

instance : DecidablePred IsCommand := fun line => inferInstanceAs (Decidable (line ≠ [] ∧ _))

/-- The commands among some lines, each cut to the buffer, without the `@` of a silent one. -/
def commands (lines : List (List UInt8)) : List (List UInt8 × Bool) :=
  (lines.filter IsCommand).map fun line => finishLine (line.take (ccpLineMax - 1))

/-- Every line leaves room for a NUL, but for a comment behind which no newline stands. -/
def LinesFit : List (List UInt8) → Prop
  | [] => True
  | [line] => line.length < ccpLineMax ∨ line.head? = some 35
  | line :: lines => line.length < ccpLineMax ∧ LinesFit lines

/-- The lines that a text adds behind the characters of a line. -/
def linesAfter (front : List UInt8) : List UInt8 → List (List UInt8)
  | [] => [front]
  | c :: rest =>
      if c = 0x1A ∨ c = 0 then [front]
      else if c = 13 then linesAfter front rest
      else if c = 10 then front :: linesAfter [] rest
      else linesAfter (front ++ [c]) rest

variable {front rest line text : List UInt8} {lines : List (List UInt8)}

theorem linesAfter_ne_nil (front rest : List UInt8) : linesAfter front rest ≠ [] := by
  induction rest generalizing front with
  | nil => simp [linesAfter]
  | cons c rest ih =>
      rw [linesAfter]
      split_ifs <;> simp [ih]

theorem linesAfter_eq (front text : List UInt8) :
    linesAfter front text = (rawLines text).modifyHead (front ++ ·) := by
  induction text generalizing front with
  | nil => simp [linesAfter, rawLines]
  | cons c rest ih =>
      rw [linesAfter]
      split_ifs with ends cr newline
      · rcases ends with rfl | rfl <;> simp [rawLines]
      · subst cr
        simp [ih, rawLines]
      · subst newline
        have split : rawLines (10 :: rest) = [] :: rawLines rest := by
          simp [rawLines, List.splitOn_eq_splitOnP, List.splitOnP_cons_eq_if_modifyHead]
        rw [ih, split, List.modifyHead_cons, List.append_nil]
        exact congrArg _ (congrFun List.modifyHead_id _)
      · push Not at ends
        have joined : rawLines (c :: rest) = (rawLines rest).modifyHead (c :: ·) := by
          simp [rawLines, ends, cr, newline, List.splitOn_eq_splitOnP,
            List.splitOnP_cons_eq_if_modifyHead]
        rw [ih, joined, List.modifyHead_modifyHead]
        simp only [List.append_assoc, List.singleton_append]
        rfl

theorem linesAfter_nil (text : List UInt8) : linesAfter [] text = rawLines text :=
  (linesAfter_eq [] text).trans (congrFun List.modifyHead_id _)

theorem linesFit_cons (more : lines ≠ []) :
    LinesFit (line :: lines) ↔ line.length < ccpLineMax ∧ LinesFit lines := by
  cases lines with
  | nil => exact absurd rfl more
  | cons => rfl

theorem commands_cons (line : List UInt8) (lines : List (List UInt8)) :
    commands (line :: lines) =
      (if IsCommand line then [finishLine (line.take (ccpLineMax - 1))] else []) ++
        commands lines := by
  unfold commands
  rw [List.filter_cons]
  split <;> simp_all

end Lines

section Line

variable {o : LineOut} {front : List UInt8} {c : UInt8} {pos : Nat} {finished : Bool}

/-- The buffer holds the characters of a line, as far as it has room for them. -/
structure LineOut.Holds (o : LineOut) (front : List UInt8) : Prop where
  inside : o.out.inside = true
  ln : o.ln = min front.length ccpLineMax
  chars : o.out.buf.slice 0 o.ln = front.take ccpLineMax

/-- A scan that has stayed inside the buffer comes to a line with a NUL behind it, or to none. -/
structure LineScan.Shows (scan : LineScan) (line : Option (List UInt8 × Bool)) : Prop where
  inside : scan.out.inside = true
  line : (scan.code.map fun n => (scan.out.buf.slice 0 n, scan.silent)) = line
  ends : ∀ n, scan.code = some n → n < ccpLineMax ∧ scan.out.buf.get n = 0

theorem LineOut.Holds.empty {out : Watched ccpLineMax} (inside : out.inside = true) :
    LineOut.Holds { out, ln := 0 } [] := ⟨inside, rfl, rfl⟩

theorem LineOut.Holds.put (holds : o.Holds front) (c : UInt8) :
    (o.put c).Holds (front ++ [c]) := by
  have ln := holds.ln
  unfold LineOut.put
  split
  next room =>
    have short : front.length < ccpLineMax := by omega
    refine ⟨by simp [holds.inside, room], by simp; omega, ?_⟩
    rw [Watched.slice_store_next _ c room, holds.chars, List.take_of_length_le (by omega),
      List.take_of_length_le (by simp; omega)]
  next full =>
    have long : ccpLineMax ≤ front.length := by omega
    refine ⟨holds.inside, by simp; omega, ?_⟩
    rw [holds.chars, List.take_append_of_le_length long]

theorem LineOut.Holds.ln_eq_zero (holds : o.Holds front) : o.ln = 0 ↔ front = [] := by
  rw [holds.ln, ← List.length_eq_zero_iff, Nat.min_eq_zero_iff]
  simp

theorem LineOut.Holds.get (holds : o.Holds front) {i : Nat} (before : i < o.ln) :
    o.out.buf.get i = front.getD i 0 := by
  have ln := holds.ln
  have char := Buffer.getD_slice o.out.buf 0 before
  rw [holds.chars, Nat.zero_add] at char
  rw [← char, List.getD_eq_getElem?_getD, List.getElem?_take_of_lt (by omega),
    List.getD_eq_getElem?_getD]

theorem LineOut.Holds.starts (holds : o.Holds front) (filled : front ≠ []) :
    o.out.buf.get 0 = c ↔ front.head? = some c := by
  have before : 0 < o.ln := Nat.pos_of_ne_zero (mt holds.ln_eq_zero.mp filled)
  rw [holds.get before]
  cases front with
  | nil => exact absurd rfl filled
  | cons x front => simp

theorem LineOut.get_terminate (o : LineOut) (before : 0 < o.ln) :
    o.terminate.out.buf.get 0 = o.out.buf.get 0 :=
  Watched.get_store_ne _ 0 (Nat.ne_of_lt before)

theorem LineOut.terminate_inside (holds : o.Holds front) :
    o.terminate.out.inside = true ↔ front.length < ccpLineMax := by
  have ln := holds.ln
  simp only [LineOut.terminate, Watched.inside_store, holds.inside, Bool.true_and,
    decide_eq_true_eq]
  omega

/-- The NUL behind a line that fills the buffer is stored outside. -/
theorem LineOut.Holds.broken {out : Watched ccpLineMax} (holds : o.Holds front)
    (long : ¬ front.length < ccpLineMax)
    (noted : out.inside = true → o.terminate.out.inside = true) : out.inside = false := by
  rw [Bool.eq_false_iff]
  exact fun inside => long ((LineOut.terminate_inside holds).mp (noted inside))

theorem LineOut.Holds.terminate (holds : o.Holds front) (short : front.length < ccpLineMax) :
    o.terminate.Holds front where
  inside := (LineOut.terminate_inside holds).mpr short
  ln := holds.ln
  chars := by
    rw [← holds.chars]
    exact Buffer.slice_blit_of_disjoint _ (.inl (by simp [LineOut.terminate]))

/-- The characters of a line moved down over its `@`, and the NUL with them. -/
theorem LineOut.get_strip {o : LineOut} {j : Nat} (inside : o.ln < ccpLineMax) (before : j < o.ln) :
    o.strip.out.buf.get j = o.out.buf.get (j + 1) := by
  rw [LineOut.strip, Watched.get_moveDown _ (by omega) (by omega), if_pos before]

/-- A line that a NUL has room behind is returned as it stands, but for a leading `@`. -/
theorem LineOut.Holds.deliver (holds : o.Holds front) (filled : front ≠ [])
    (short : front.length < ccpLineMax) (pos : Nat) (finished : Bool) :
    (o.terminate.deliver pos finished).Shows (some (finishLine front)) := by
  have closed := holds.terminate short
  have ln : o.terminate.ln = front.length := by
    rw [closed.ln]
    omega
  have nul : o.terminate.out.buf.get front.length = 0 := by
    rw [← ln]
    exact Watched.get_store _ 0 (by rw [holds.ln]; omega)
  have chars : o.terminate.out.buf.slice 0 front.length = front := by
    rw [← ln, closed.chars, List.take_of_length_le (by omega)]
  rw [LineOut.deliver, finishLine]
  by_cases silent : front.head? = some 64
  · rw [if_pos ((closed.starts filled).mpr silent), if_pos silent]
    obtain ⟨tail, rfl⟩ : ∃ tail, front = 64 :: tail := by
      cases front with
      | nil => exact absurd rfl filled
      | cons c tail => exact ⟨tail, by simpa using silent⟩
    rw [List.length_cons] at ln short nul chars
    have moved {j : Nat} (before : j < tail.length + 1) :=
      LineOut.get_strip (o := o.terminate) (by rw [ln]; exact short) (by rw [ln]; exact before)
    have rest : o.terminate.out.buf.slice 1 tail.length = tail := by
      rw [Nat.add_comm, Buffer.slice_add, Nat.zero_add] at chars
      exact (List.cons.inj chars).2
    have text : o.terminate.strip.out.buf.slice 0 tail.length = tail := by
      refine Eq.trans (List.map_congr_left fun i mem => ?_) rest
      have before := List.mem_range.mp mem
      rw [Nat.zero_add, moved (by omega), Nat.add_comm]
    have stripped : o.terminate.strip.ln = tail.length := by
      rw [LineOut.strip, ln, Nat.add_sub_cancel]
    refine ⟨?_, by simp [stripped, text], ?_⟩
    · refine Watched.inside_storeAll closed.inside fun i mem => ?_
      have before := List.mem_range.mp mem
      simp only [id]
      omega
    · rintro n ⟨⟩
      rw [stripped]
      exact ⟨by omega, (moved (Nat.lt_succ_self _)).trans nul⟩
  · rw [if_neg (mt (closed.starts filled).mp silent), if_neg silent]
    refine ⟨closed.inside, by simp [ln, chars], ?_⟩
    rintro n ⟨⟩
    rw [ln]
    exact ⟨short, nul⟩

theorem LineOut.deliver_finished (o : LineOut) (pos : Nat) (finished : Bool) :
    (o.deliver pos finished).finished = finished := by
  unfold LineOut.deliver
  split <;> rfl

theorem LineOut.deliver_pos (o : LineOut) (pos : Nat) (finished : Bool) :
    (o.deliver pos finished).pos = pos := by
  unfold LineOut.deliver
  split <;> rfl

theorem LineOut.deliver_inside (inside : (o.deliver pos finished).out.inside = true) :
    o.out.inside = true := by
  unfold LineOut.deliver at inside
  split at inside
  · exact Watched.inside_of_storeAll inside
  · exact inside

end Line

section Scan

variable {script : Nat → UInt8} {pos pos' : Nat} {front rest : List UInt8} {c : UInt8}
  {lines lines' : List (List UInt8)} {scan : LineScan} {o : LineOut}

/-- What a call comes to when these lines are left and this is the text behind the position:
a store outside, the first command, or the end of the script. -/
inductive Scanned (pos : Nat) (rest : List UInt8) (lines : List (List UInt8)) (scan : LineScan) :
    Prop
  | outside (broken : scan.out.inside = false) (long : ¬ LinesFit lines)
  | line (k : Nat) (line : List UInt8 × Bool) (moves : scan.pos = pos + k) (forward : 0 < k)
      (within : k ≤ rest.length) (shows : scan.Shows (some line)) (goesOn : scan.finished = false)
      (left : commands lines = line :: commands (rawLines (rest.drop k)))
      (fit : LinesFit lines ↔ LinesFit (rawLines (rest.drop k)))
  | ended (line : Option (List UInt8 × Bool)) (shows : scan.Shows line)
      (finished : scan.finished = true) (left : commands lines = line.toList)
      (fit : LinesFit lines)

/-- A byte that is passed takes nothing from the commands. -/
theorem Scanned.consume (scanned : Scanned (pos + 1) rest lines' scan)
    (same : commands lines = commands lines') (fit : LinesFit lines ↔ LinesFit lines') :
    Scanned pos (c :: rest) lines scan := by
  cases scanned with
  | outside broken long => exact .outside broken (mt fit.mp long)
  | line k line moves forward within shows goesOn left fit' =>
      exact .line (k + 1) line (by omega) (Nat.succ_pos k) (Nat.succ_le_succ within) shows goesOn
        (same.trans left) (fit.trans fit')
  | ended line shows finished left fit' =>
      exact .ended line shows finished (same.trans left) (fit.mpr fit')

theorem commands_singleton (command : IsCommand front) (short : front.length < ccpLineMax) :
    commands (front :: lines) = finishLine front :: commands lines := by
  rw [commands_cons, if_pos command, List.take_of_length_le (Nat.le_sub_one_of_lt short)]
  rfl

theorem commands_skip (skipped : ¬ IsCommand front) :
    commands (front :: lines) = commands lines := by
  rw [commands_cons, if_neg skipped, List.nil_append]

theorem LineOut.Holds.isCommand (holds : o.Holds front) :
    0 < o.ln ∧ o.out.buf.get 0 ≠ 35 ↔ IsCommand front := by
  rw [IsCommand, Nat.pos_iff_ne_zero, ne_eq, holds.ln_eq_zero]
  exact and_congr_right fun filled => (holds.starts filled).not

/-- The test behind a newline, which reads the first character after the NUL is stored. -/
theorem LineOut.Holds.skipped (holds : o.Holds front) :
    o.ln = 0 ∨ o.terminate.out.buf.get 0 = 35 ↔ ¬ IsCommand front := by
  rw [← holds.isCommand]
  rcases Nat.eq_zero_or_pos o.ln with empty | filled
  · simp [empty]
  · rw [o.get_terminate filled]
    simp [filled, Nat.ne_of_gt filled]

theorem linesFit_skipped (skipped : ¬ IsCommand front) : LinesFit [front] := by
  by_cases empty : front = []
  · exact .inl (by simp [empty])
  · exact .inr (by_contra fun other => skipped ⟨empty, other⟩)

/-- A store outside is noted for the rest of the call. -/
theorem scanLine_inside {left : Nat} (inside : (scanLine script left pos o).out.inside = true) :
    o.out.inside = true := by
  have closed {o : LineOut} (inside : o.terminate.out.inside = true) : o.out.inside = true := by
    simp only [LineOut.terminate, Watched.inside_store, Bool.and_eq_true] at inside
    exact inside.1
  have ended {o : LineOut} {pos : Nat} (inside : (o.endScript pos).out.inside = true) :
      o.out.inside = true := by
    unfold LineOut.endScript at inside
    split at inside
    · exact closed (LineOut.deliver_inside inside)
    · exact inside
  induction left generalizing pos o with
  | zero => exact ended inside
  | succ left ih =>
      simp only [scanLine] at inside
      split_ifs at inside
      · exact ended inside
      · exact ih inside
      · exact closed (ih (o := { o.terminate with ln := 0 }) inside)
      · exact closed (LineOut.deliver_inside inside)
      · have put := ih inside
        unfold LineOut.put at put
        split at put
        · rw [Watched.inside_store, Bool.and_eq_true] at put
          exact put.1
        · exact put

/-- The two copies of the logic at the end of a line: this one is behind the last byte. -/
theorem LineOut.Holds.endScript (holds : o.Holds front) (pos pos' : Nat) (rest : List UInt8) :
    Scanned pos rest [front] (o.endScript pos') := by
  rw [LineOut.endScript]
  by_cases command : IsCommand front
  · rw [if_pos (holds.isCommand.mpr command)]
    by_cases short : front.length < ccpLineMax
    · exact .ended _ (holds.deliver command.1 short pos' true) (o.terminate.deliver_finished ..)
        (commands_singleton command short) (.inl short)
    · refine .outside (holds.broken short LineOut.deliver_inside) ?_
      rintro (short' | comment)
      · exact short short'
      · exact command.2 comment
  · rw [if_neg (mt holds.isCommand.mp command)]
    exact .ended none ⟨holds.inside, rfl, nofun⟩ rfl (commands_skip command)
      (linesFit_skipped command)

theorem scanLine_scanned (holds : o.Holds front)
    (same : ∀ i < rest.length, script (pos + i) = rest.getD i 0) :
    Scanned pos rest (linesAfter front rest) (scanLine script rest.length pos o) := by
  induction rest generalizing pos front o with
  | nil => exact holds.endScript pos pos []
  | cons c rest ih =>
      have first : script pos = c := same 0 (Nat.succ_pos _)
      have behind : ∀ i < rest.length, script (pos + 1 + i) = rest.getD i 0 := by
        intro i before
        rw [Nat.add_right_comm]
        exact same (i + 1) (Nat.succ_lt_succ before)
      rw [List.length_cons, scanLine, linesAfter, first]
      simp only []
      split_ifs with ends cr newline skipped
      · exact holds.endScript pos (pos + 1) _
      · exact (ih holds behind).consume rfl Iff.rfl
      · have skipped := holds.skipped.mp skipped
        by_cases short : front.length < ccpLineMax
        · have restart : LineOut.Holds { o.terminate with ln := 0 } [] :=
            .empty ((LineOut.terminate_inside holds).mpr short)
          exact (ih restart behind).consume (commands_skip skipped)
            ((linesFit_cons (linesAfter_ne_nil [] rest)).trans (and_iff_right short))
        · refine .outside (holds.broken short
            (scanLine_inside (o := { o.terminate with ln := 0 }))) ?_
          rw [linesFit_cons (linesAfter_ne_nil [] rest)]
          exact fun fit => short fit.1
      · have command := not_not.mp (mt holds.skipped.mpr skipped)
        by_cases short : front.length < ccpLineMax
        · refine .line 1 _ (o.terminate.deliver_pos ..) Nat.one_pos (by simp)
            (holds.deliver command.1 short _ false) (o.terminate.deliver_finished ..) ?_ ?_
          · rw [commands_singleton command short, linesAfter_nil]
            rfl
          · rw [linesFit_cons (linesAfter_ne_nil [] rest), linesAfter_nil]
            exact and_iff_right short
        · refine .outside (holds.broken short LineOut.deliver_inside) ?_
          rw [linesFit_cons (linesAfter_ne_nil [] rest)]
          exact fun fit => short fit.1
      · exact (ih (holds.put c) behind).consume rfl Iff.rfl

/-- As long as the stores stay inside, the buffer follows the scan on lists of characters. -/
theorem scanLine_refines {left : Nat} (holds : o.Holds front) (short : front.length ≤ ccpLineMax)
    (inside : (scanLine script left pos o).out.inside = true) :
    (scanLine script left pos o).Shows (scanScript script left pos front).line ∧
      (scanLine script left pos o).pos = (scanScript script left pos front).pos ∧
      (scanLine script left pos o).finished = (scanScript script left pos front).finished := by
  have fits {o : LineOut} {front : List UInt8} (holds : o.Holds front)
      (inside : o.terminate.out.inside = true) := (LineOut.terminate_inside holds).mp inside
  have ended {o : LineOut} {front : List UInt8} {pos : Nat} (holds : o.Holds front)
      (inside : (o.endScript pos).out.inside = true) :
      (o.endScript pos).Shows (lastLine front) ∧ (o.endScript pos).pos = pos ∧
        (o.endScript pos).finished = true := by
    unfold LineOut.endScript lastLine at *
    have isCommand := holds.isCommand
    rw [IsCommand] at isCommand
    split_ifs at * with command <;> try tauto
    · exact ⟨holds.deliver (isCommand.mp command).1 (fits holds (LineOut.deliver_inside inside))
        pos true, o.terminate.deliver_pos .., o.terminate.deliver_finished ..⟩
    · exact ⟨⟨holds.inside, rfl, nofun⟩, rfl, rfl⟩
  induction left generalizing pos o front with
  | zero => exact ended holds inside
  | succ left ih =>
      have skips : front = [] ∨ front.head? = some 35 ↔ ¬ IsCommand front := by
        rw [IsCommand, not_and_or, not_not, not_not]
      simp only [scanLine, scanScript, holds.skipped, skips] at inside ⊢
      split_ifs at inside ⊢ with ends cr newline command room
      · exact ended holds inside
      · exact ih holds short inside
      · exact ⟨holds.deliver command.1 (fits holds (LineOut.deliver_inside inside)) _ false,
          o.terminate.deliver_pos .., o.terminate.deliver_finished ..⟩
      · have closed := scanLine_inside (o := { o.terminate with ln := 0 }) inside
        exact ih (.empty closed) (Nat.zero_le _) inside
      · exact ih (holds.put _) (by simpa [Nat.succ_le_iff] using room) inside
      · have full : o.put (script pos) = o := by
          rw [LineOut.put, if_neg (by rw [holds.ln]; omega)]
        rw [full] at inside ⊢
        exact ih holds short inside

end Scan

section Calls

/-- What the caller of `submit_next_line` observes: the line in its buffer, or none, and
whether all stores have been inside, a NUL ends the line, and no script is active at the end. -/
def seenLine (r : LineResult × Watched ccpLineMax) : Option (List UInt8 × Bool) × Bool :=
  (r.1.code.map fun n => (r.2.buf.slice 0 n, r.1.silent),
    r.2.inside && match r.1.code with
      | some n => n < ccpLineMax && r.2.buf.get n = 0
      | none => !r.1.active)

/-- Any number of calls after `submit` has read a script deliver its commands in order, each
once, and then -1, with every store inside. -/
def ScriptMeets (text : List UInt8) : Prop :=
  ∀ (w : Window) (out : Buffer ccpLineMax) (n : Nat),
    ∃ results w', calls submitNextLineInto n { buf := out, inside := true }
        (cmdSubmit w (some text)) = some (results, w') ∧
      results.map seenLine =
        drained (none, true) ((commands (rawLines text)).map fun line => (some line, true)) n

/-- A script is active, with this text behind its position. -/
structure ScriptLeft (w : Window) (rest : List UInt8) : Prop where
  active : w.active submitBase = 1
  len : w.pos submitBase + rest.length = w.len submitBase
  small : w.len submitBase ≤ maxScript
  unread : ∀ i < rest.length, w.text submitBase (w.pos submitBase + i) = rest.getD i 0

variable {w : Window} {rest text : List UInt8} {out : Watched ccpLineMax}

theorem scriptLeft_submitted (w : Window) (short : text.length < maxScript) :
    ScriptLeft (cmdSubmit w (some text)) text := by
  have whole : text.take maxScript = text := List.take_of_length_le (Nat.le_of_lt short)
  have fits : submitBase + dataOffset + text.length ≤ windowSize := by grind
  have submitted : cmdSubmit w (some text) =
      Window.announce (w.blit (submitBase + dataOffset) text) submitBase text.length := by
    simp only [cmdSubmit, whole, Nat.min_eq_left (Nat.le_of_lt short),
      if_neg (Nat.not_le.mpr short)]
  have pos : (cmdSubmit w (some text)).pos submitBase = 0 := by
    rw [submitted]
    exact pos_announce _ _ (by decide)
  have len : (cmdSubmit w (some text)).len submitBase = text.length := by
    rw [submitted]
    exact len_announce _ (by decide) (by grind)
  refine ⟨?_, ?_, ?_, ?_⟩
  · rw [submitted]
    exact active_announce _ _ (by decide)
  · rw [pos, len, Nat.zero_add]
  · rw [len]
    exact Nat.le_of_lt short
  · intro i before
    rw [pos, Nat.zero_add i, submitted]
    exact text_announce w fits before

theorem ScriptLeft.scanned (left : ScriptLeft w rest) (inside : out.inside = true) :
    Scanned (w.pos submitBase) rest (rawLines rest)
      (scanLine (w.text submitBase) (w.len submitBase - w.pos submitBase) (w.pos submitBase)
        { out, ln := 0 }) := by
  have length : w.len submitBase - w.pos submitBase = rest.length := by
    have len := left.len
    omega
  rw [length, ← linesAfter_nil]
  exact scanLine_scanned (.empty inside) left.unread

theorem ScriptLeft.setPos (left : ScriptLeft w rest) {k : Nat} (within : k ≤ rest.length) :
    ScriptLeft (w.setPos submitBase (w.pos submitBase + k)) (rest.drop k) := by
  have len := left.len
  have small := left.small
  have pos : (w.setPos submitBase (w.pos submitBase + k)).pos submitBase =
      w.pos submitBase + k :=
    pos_setPos w (by decide) (by grind)
  refine ⟨(active_setPos w _).trans left.active, ?_, (len_setPos w _).trans_le small, ?_⟩
  · rw [pos, len_setPos, List.length_drop]
    omega
  · intro i before
    rw [List.length_drop] at before
    rw [pos, text_setPos, Nat.add_assoc, left.unread _ (by omega)]
    simp [List.getD_eq_getElem?_getD]

theorem active_cleared (w : Window) : (w.setActive submitBase 0).active submitBase = 0 :=
  Buffer.loadBe_blit_self w submitBase 4 0 (by decide)

/-- The values that are left to deliver, behind a store outside none. -/
inductive CommandsLeft : List (Option (List UInt8 × Bool) × Bool) → Watched ccpLineMax → Window →
    Prop
  | script {rest : List UInt8} {out : Watched ccpLineMax} {w : Window} (left : ScriptLeft w rest)
      (inside : out.inside = true) (fit : LinesFit (rawLines rest)) :
      CommandsLeft ((commands (rawLines rest)).map fun line => (some line, true)) out w
  | exhausted {out : Watched ccpLineMax} {w : Window} (inactive : w.active submitBase = 0)
      (inside : out.inside = true) : CommandsLeft [] out w

theorem submitNextLineInto_inactive (inactive : w.active submitBase = 0) :
    submitNextLineInto out w =
      some (({ code := none, silent := false, active := false }, out), w) := if_pos inactive

theorem ScriptLeft.submitNextLineInto (left : ScriptLeft w rest) {scan : LineScan}
    (scanned : scanLine (w.text submitBase) (w.len submitBase - w.pos submitBase)
      (w.pos submitBase) { out, ln := 0 } = scan) :
    Xcpm.submitNextLineInto out w =
      if scan.finished then
        some (({ code := scan.code, silent := scan.silent, active := false }, scan.out),
          (w.setPos submitBase scan.pos).setActive submitBase 0)
      else
        some (({ code := scan.code, silent := scan.silent, active := true }, scan.out),
          w.setPos submitBase scan.pos) := by
  have active := left.active
  unfold Xcpm.submitNextLineInto
  rw [if_neg (by rw [active]; decide)]
  simp only [scanned]
  split
  · simp [active_cleared]
  · simp [active_setPos, active]

theorem LineScan.Shows.seen {scan : LineScan} {line : List UInt8 × Bool}
    (shows : scan.Shows (some line)) (active : Bool) :
    seenLine ({ code := scan.code, silent := scan.silent, active }, scan.out) =
      (some line, true) := by
  have ends := shows.ends
  have text := shows.line
  obtain ⟨n, code⟩ : ∃ n, scan.code = some n := by
    cases code : scan.code with
    | none => simp [code] at text
    | some n => exact ⟨n, rfl⟩
  rw [code] at text
  simp only [Option.map_some, Option.some.injEq] at text
  simp [seenLine, code, shows.inside, text, ends n code]

/-- What one call on an active script comes to. -/
inductive Called (rest : List UInt8) (result : LineResult × Watched ccpLineMax) (w' : Window) : Prop
  | outside (broken : (seenLine result).2 = false) (long : ¬ LinesFit (rawLines rest))
  | line (k : Nat) (line : List UInt8 × Bool) (forward : 0 < k) (within : k ≤ rest.length)
      (seen : seenLine result = (some line, true)) (inside : result.2.inside = true)
      (left : ScriptLeft w' (rest.drop k))
      (split : commands (rawLines rest) = line :: commands (rawLines (rest.drop k)))
      (fit : LinesFit (rawLines rest) ↔ LinesFit (rawLines (rest.drop k)))
  | ended (line : Option (List UInt8 × Bool)) (seen : seenLine result = (line, true))
      (inside : result.2.inside = true) (inactive : w'.active submitBase = 0)
      (last : commands (rawLines rest) = line.toList) (fit : LinesFit (rawLines rest))

theorem ScriptLeft.called (left : ScriptLeft w rest) (inside : out.inside = true) :
    ∃ result w', Xcpm.submitNextLineInto out w = some (result, w') ∧ Called rest result w' := by
  generalize found : scanLine (w.text submitBase) (w.len submitBase - w.pos submitBase)
    (w.pos submitBase) { out, ln := 0 } = scan
  have scanned := left.scanned inside
  rw [found] at scanned
  rw [left.submitNextLineInto found]
  cases scanned with
  | outside broken long =>
      split
      · exact ⟨_, _, rfl, .outside (by simp [seenLine, broken]) long⟩
      · exact ⟨_, _, rfl, .outside (by simp [seenLine, broken]) long⟩
  | line k line moves forward within shows goesOn split fit =>
      rw [goesOn, moves]
      exact ⟨_, _, rfl, .line k line forward within (shows.seen true) shows.inside
        (left.setPos within) split fit⟩
  | ended line shows finished last fit =>
      rw [finished]
      refine ⟨_, _, rfl, .ended line ?_ shows.inside (active_cleared _) last fit⟩
      cases line with
      | some line => exact shows.seen false
      | none =>
          have code : scan.code = none := by simpa using shows.line
          simp [seenLine, code, shows.inside]

theorem commandsLeft_drains :
    Drains submitNextLineInto seenLine (none, true) CommandsLeft where
  more := by
    intro value values out w more
    generalize all : value :: values = delivered at more
    cases more with
    | exhausted => cases all
    | script left inside fit =>
        obtain ⟨result, w', run, called⟩ := left.called inside
        refine ⟨result, w', run, ?_⟩
        cases called with
        | outside broken long => exact absurd fit long
        | line k line forward within seen inside' left' split fit' =>
            rw [split] at all
            obtain ⟨rfl, rfl⟩ := List.cons.inj all
            exact ⟨seen, .script left' inside' (fit'.mp fit)⟩
        | ended line seen inside' inactive last =>
            rw [last] at all
            cases line with
            | none => cases all
            | some line =>
                obtain ⟨rfl, rfl⟩ := List.cons.inj all
                exact ⟨seen, .exhausted inactive inside'⟩
  done := by
    intro out w ended
    generalize all : [] = delivered at ended
    cases ended with
    | exhausted inactive inside =>
        exact ⟨_, _, submitNextLineInto_inactive inactive, by simp [seenLine, inside],
          .exhausted inactive inside⟩
    | script left inside fit =>
        obtain ⟨result, w', run, called⟩ := left.called inside
        refine ⟨result, w', run, ?_⟩
        cases called with
        | outside broken long => exact absurd fit long
        | line k line forward within seen inside' left' split =>
            rw [split] at all
            cases all
        | ended line seen inside' inactive last =>
            rw [last] at all ⊢
            cases line with
            | none => exact ⟨seen, .exhausted inactive inside'⟩
            | some line => cases all

/-- A line without room for its NUL is reached by some call. -/
theorem ScriptLeft.overruns (left : ScriptLeft w rest) (inside : out.inside = true)
    (long : ¬ LinesFit (rawLines rest)) :
    ∃ n results w', calls Xcpm.submitNextLineInto n out w = some (results, w') ∧
      ∃ result ∈ results, (seenLine result).2 = false := by
  induction length : rest.length using Nat.strong_induction_on generalizing rest w out with
  | _ bytes ih =>
      obtain ⟨result, w', run, called⟩ := left.called inside
      cases called with
      | outside broken =>
          refine ⟨1, [result], w', ?_, result, List.mem_singleton_self _, broken⟩
          rw [calls, Prog.bind_eq_of_run run]
          rfl
      | line k line forward within seen inside' left' split fit =>
          obtain ⟨n, results, w'', rest', result', mem, broken⟩ := ih (rest.drop k).length
            (by rw [List.length_drop]; omega) left' inside' (mt fit.mpr long) rfl
          refine ⟨n + 1, result :: results, w'', ?_, result', List.mem_cons_of_mem _ mem, broken⟩
          rw [calls, Prog.bind_eq_of_run run, Prog.bind_eq_of_run rest']
          rfl
      | ended line seen inside' inactive last fit => exact absurd fit long

theorem seen_sound {lines : List (List UInt8 × Bool)} {n : Nat}
    {results : List (LineResult × Watched ccpLineMax)}
    (seen : results.map seenLine =
      drained (none, true) (lines.map fun line => (some line, true)) n) :
    ∀ result ∈ results, (seenLine result).2 = true := by
  intro result mem
  have listed := List.mem_of_mem_take (seen ▸ List.mem_map_of_mem mem)
  simp only [List.mem_append, List.mem_map, List.mem_replicate] at listed
  rcases listed with ⟨line, -, same⟩ | ⟨-, same⟩
  · rw [← same]
  · rw [same]

end Calls

end Ncd15.Xcpm
