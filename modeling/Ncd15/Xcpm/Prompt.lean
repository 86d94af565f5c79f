import Ncd15.Xcpm.Environment

/-!
# The prompt

`build_prompt` expands the items of a format into the buffer of `_start`, which is shorter
than the bound that its loops test.
-/

namespace Ncd15.Xcpm

open Ncd15.Library

section Source

/-- The size of `prompt` in `_start`. -/
abbrev promptSize : Nat := 16

/-- The bound on `n` in the loops of `build_prompt`. -/
abbrev promptBound : Nat := 30

/-- `out` and `n` of `build_prompt`. -/
structure PromptOut where
  out : Watched promptSize
  n : Nat

namespace PromptOut

/-- `out[n++] = c`. -/
def push (p : PromptOut) (c : UInt8) : PromptOut :=
  { out := p.out.store p.n c, n := p.n + 1 }

/-- `out[n] = 0`. -/
def terminate (p : PromptOut) : PromptOut := { p with out := p.out.store p.n 0 }

/-- `for (i = 0; cwd[i] && n < 30; i++) out[n++] = cwd[i]`. -/
def pushPath (p : PromptOut) : List UInt8 → PromptOut
  | [] => p
  | c :: rest => if p.n < promptBound then (p.push c).pushPath rest else p

end PromptOut

/-- The digits of the user number; none for user 0. -/
def userDigits (u : Nat) : List UInt8 :=
  if 0 < u then
    (if 10 ≤ u then [UInt8.ofNat (48 + u / 10)] else []) ++ [UInt8.ofNat (48 + u % 10)]
  else []

/-- The letter of a drive. -/
def driveLetter (d : Nat) : UInt8 := UInt8.ofNat (65 + d % 16)

/-- What an item other than `$P` stands for. -/
def plainItem (d : Nat) (tok : UInt8) : List UInt8 :=
  if tok = 78 then [driveLetter d]
  else if tok = 71 then [62]
  else if tok = 76 then [60]
  else if tok = 83 then [32]
  else if tok = 36 then [36]
  else if tok = 69 then [0x1B]
  else if tok = 95 then [13, 10]
  else [tok]

/-- The `switch` of `build_prompt`. -/
def PromptOut.item (d u : Nat) (cwd : List UInt8) (p : PromptOut) (tok : UInt8) : PromptOut :=
  if tok = 80 then
    let p := (userDigits u).foldl PromptOut.push (p.push (driveLetter d))
    ((p.push 58).pushPath cwd).push 92
  else (plainItem d tok).foldl PromptOut.push p

/-- The loop of `build_prompt` over the format. -/
def promptLoop (d u : Nat) (cwd : List UInt8) : List UInt8 → PromptOut → PromptOut
  | [], p => p
  | c :: rest, p =>
      if p.n < promptBound then
        if c = 36 then
          match rest with
          | [] => p
          | tok :: rest => promptLoop d u cwd rest (p.item d u cwd tok)
        else promptLoop d u cwd rest (p.push c)
      else p

/-- The value of `PROMPT`, or the default. -/
def Env.promptFormat (env : Env) : Option (List UInt8) :=
  (env.get (ascii "PROMPT")).map fun value => value.getD (ascii "$P$G$S")

/-- `build_prompt` into a buffer with any contents, for the drive, the user and the current
directory that the BDOS reports. -/
def Env.buildPrompt (env : Env) (d u : Nat) (cwd : List UInt8) (prompt : Buffer promptSize) :
    Option PromptOut := do
  let fmt ← env.promptFormat
  let start : PromptOut := { out := { buf := prompt, inside := true }, n := 0 }
  some (promptLoop d (u % 256) cwd fmt start).terminate

end Source

section Text

/-- What an item stands for. -/
def itemText (d u : Nat) (cwd : List UInt8) (tok : UInt8) : List UInt8 :=
  if tok = 80 then driveLetter d :: userDigits u ++ 58 :: cwd ++ [92] else plainItem d tok

/-- The text that a format stands for. -/
def promptText (d u : Nat) (cwd : List UInt8) : List UInt8 → List UInt8
  | [] => []
  | c :: rest =>
      if c = 36 then
        match rest with
        | [] => []
        | tok :: rest => itemText d u cwd tok ++ promptText d u cwd rest
      else c :: promptText d u cwd rest

/-- A stretch of the loop writes a text, or has run up to the bound with no more characters
than the text has. -/
def PromptOut.Writes (p q : PromptOut) (text : List UInt8) : Prop :=
  ∃ chars : List UInt8, q = chars.foldl PromptOut.push p ∧
    (chars = text ∨ promptBound ≤ p.n + chars.length ∧ chars.length ≤ text.length)

variable {p q r : PromptOut} {text text' : List UInt8}

theorem n_pushAll (chars : List UInt8) (p : PromptOut) :
    (chars.foldl PromptOut.push p).n = p.n + chars.length := by
  induction chars generalizing p with
  | nil => rfl
  | cons c chars ih =>
      simp only [List.foldl_cons, ih, PromptOut.push, List.length_cons]
      omega

theorem inside_pushAll (chars : List UInt8) (p : PromptOut) :
    (chars.foldl PromptOut.push p).out.inside = true ↔
      p.out.inside = true ∧ (chars = [] ∨ p.n + chars.length ≤ promptSize) := by
  induction chars generalizing p with
  | nil => simp
  | cons c chars ih =>
      rw [List.foldl_cons, ih]
      simp only [PromptOut.push, Watched.inside_store, Bool.and_eq_true, decide_eq_true_eq,
        List.length_cons, reduceCtorEq, false_or]
      cases chars with
      | nil => simp [Nat.succ_le_iff]
      | cons c' chars =>
          simp only [List.length_cons, reduceCtorEq, false_or, and_assoc]
          exact and_congr_right fun _ => by omega

theorem PromptOut.Writes.refl (p : PromptOut) : p.Writes p [] := ⟨[], rfl, .inl rfl⟩

theorem PromptOut.Writes.pushAll (p : PromptOut) (chars : List UInt8) :
    p.Writes (chars.foldl PromptOut.push p) chars := ⟨chars, rfl, .inl rfl⟩

theorem PromptOut.Writes.push (p : PromptOut) (c : UInt8) : p.Writes (p.push c) [c] :=
  .pushAll p [c]

/-- The loop stopped at its bound. -/
theorem PromptOut.Writes.stopped (full : promptBound ≤ p.n) (text : List UInt8) :
    p.Writes p text := ⟨[], rfl, .inr ⟨full, Nat.zero_le _⟩⟩

theorem PromptOut.Writes.trans (first : p.Writes q text) (second : q.Writes r text') :
    p.Writes r (text ++ text') := by
  obtain ⟨chars, rfl, first⟩ := first
  obtain ⟨chars', rfl, second⟩ := second
  refine ⟨chars ++ chars', (List.foldl_append ..).symm, ?_⟩
  rw [n_pushAll] at second
  simp only [List.length_append]
  rcases first with rfl | ⟨full, short⟩
  · rcases second with rfl | ⟨full, short⟩
    · exact .inl rfl
    · right
      omega
  · right
    have short' : chars'.length ≤ text'.length := by
      rcases second with rfl | ⟨-, short'⟩
      · exact Nat.le_refl _
      · exact short'
    omega

theorem pushPath_writes (cwd : List UInt8) (p : PromptOut) : p.Writes (p.pushPath cwd) cwd := by
  induction cwd generalizing p with
  | nil => exact .refl p
  | cons c cwd ih =>
      rw [PromptOut.pushPath]
      split
      · exact (PromptOut.Writes.push p c).trans (ih _)
      · exact .stopped (by omega) _

theorem item_writes (d u : Nat) (cwd : List UInt8) (p : PromptOut) (tok : UInt8) :
    p.Writes (p.item d u cwd tok) (itemText d u cwd tok) := by
  unfold PromptOut.item itemText
  split
  · have letter := (PromptOut.Writes.push p (driveLetter d)).trans
      (PromptOut.Writes.pushAll _ (userDigits u))
    have path := (letter.trans (.push _ 58)).trans (pushPath_writes cwd _)
    simpa using path.trans (.push _ 92)
  · exact .pushAll p _

/-- One round for each item: the loop writes the text of the format, or runs up to its bound. -/
theorem promptLoop_writes (d u : Nat) (cwd fmt : List UInt8) (p : PromptOut) :
    p.Writes (promptLoop d u cwd fmt p) (promptText d u cwd fmt) := by
  induction fmt, p using promptLoop.induct d u cwd with
  | case1 p => exact .refl p
  | case2 p room => simpa [promptLoop, promptText, room] using PromptOut.Writes.refl p
  | case3 p room tok rest ih =>
      simpa [promptLoop, promptText, room] using (item_writes d u cwd p tok).trans ih
  | case4 c rest p room ordinary ih =>
      rw [promptLoop.eq_def, promptText.eq_def]
      simp only [if_pos room, if_neg ordinary]
      exact (PromptOut.Writes.push p c).trans ih
  | case5 c rest p full =>
      rw [promptLoop.eq_def]
      simp only [if_neg full]
      exact .stopped (by omega) _

end Text

section Law

/-- The prompt is built inside its buffer, with a NUL behind it in the buffer. -/
def Env.PromptMeets (env : Env) (d u : Nat) (cwd : List UInt8) (prompt : Buffer promptSize) :
    Prop :=
  ∃ p, env.buildPrompt d u cwd prompt = some p ∧ p.out.inside = true ∧
    ∃ i < promptSize, p.out.buf.get i = 0

/-- The format, in an environment that settings lead to, stands for at most 15 characters. -/
def Env.PromptFits (env : Env) (d u : Nat) (cwd : List UInt8) : Prop :=
  ∃ fmt, env.promptFormat = some fmt ∧ (promptText d (u % 256) cwd fmt).length < promptSize

variable {env : Env} {d u : Nat} {cwd : List UInt8} {prompt : Buffer promptSize}

theorem Env.Reached.promptFormat (reached : env.Reached) :
    ∃ fmt, env.promptFormat = some fmt := by
  obtain ⟨entries, holds⟩ := reached.holds
  rw [Env.promptFormat, holds.get]
  exact ⟨_, rfl⟩

/-- The stores stay inside exactly when the text and a NUL have room. -/
theorem Env.promptMeets_iff (reached : env.Reached) :
    env.PromptMeets d u cwd prompt ↔ env.PromptFits d u cwd := by
  obtain ⟨fmt, format⟩ := reached.promptFormat
  obtain ⟨chars, run, ends⟩ := promptLoop_writes d (u % 256) cwd fmt
    { out := { buf := prompt, inside := true }, n := 0 }
  have built : env.buildPrompt d u cwd prompt = some (chars.foldl PromptOut.push
      { out := { buf := prompt, inside := true }, n := 0 }).terminate := by
    simp only [Env.buildPrompt, format, Option.bind_eq_bind, Option.bind_some, run]
  have stops := n_pushAll chars { out := { buf := prompt, inside := true }, n := 0 }
  simp only [Nat.zero_add] at stops ends
  constructor
  · rintro ⟨p, built', inside, -⟩
    obtain rfl := Option.some.inj (built.symm.trans built')
    simp only [PromptOut.terminate, Watched.inside_store, Bool.and_eq_true, decide_eq_true_eq,
      stops] at inside
    rcases ends with rfl | ⟨full, -⟩
    · exact ⟨fmt, format, inside.2⟩
    · exact absurd (Nat.lt_of_le_of_lt full inside.2) (by decide)
  · rintro ⟨fmt', format', fits⟩
    obtain rfl := Option.some.inj (format.symm.trans format')
    have short : chars.length < promptSize := by
      rcases ends with rfl | ⟨-, short⟩
      · exact fits
      · exact Nat.lt_of_le_of_lt short fits
    refine ⟨_, built, ?_, chars.length, short, ?_⟩
    · simp [PromptOut.terminate, inside_pushAll, stops, short, Nat.le_of_lt short]
    · rw [PromptOut.terminate, stops]
      exact Watched.get_store _ 0 short

theorem Env.promptMeets_iff_default :
    Env.empty.PromptMeets 0 0 [] Buffer.zero ↔ Env.empty.PromptFits 0 0 [] :=
  Env.promptMeets_iff .empty

/-- A directory of thirteen characters does not fit into the default prompt. -/
theorem default_prompt_overflows :
    Env.empty.Reached ∧ ¬ Env.empty.PromptMeets 0 0 (ascii "/LONGNAME.DIR") Buffer.zero := by
  have run : (Env.empty.buildPrompt 0 0 (ascii "/LONGNAME.DIR") Buffer.zero).map
      (fun p => p.out.inside) = some false := by
    decide +kernel
  refine ⟨.empty, ?_⟩
  rintro ⟨p, built, inside, -⟩
  simp [built, inside] at run

end Law

end Ncd15.Xcpm
