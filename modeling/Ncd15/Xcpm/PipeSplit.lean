import Ncd15.Xcpm.Arguments
import Ncd15.Xcpm.ScratchWindow

/-!
# Where a pipe splits the line

`handle_pipe` looks for a bar between two spaces outside of quotes with two flags that every
quote flips.  For `next_token` a backslash between double quotes escapes the quote behind it,
for `handle_pipe` it does not.
-/

namespace Ncd15.Xcpm

open Ncd15.Library

section Model

/-- `handle_pipe` up to its two calls of `run_line`: the parts before and after the bar, when
it does not return 0, and the window. -/
def handlePipe (w : Window) (line : List UInt8) : Option (List UInt8 × List UInt8) × Window :=
  match findBar [] false false line with
  | none => (none, w)
  | some (before, after) => (some (before, after), storePipe w before after)

end Model

section Quotes

variable {escapes : Bool} {q : Quoting} {before after line : List UInt8} {c : UInt8}

/-- How a character that is not the last one of its line changes the quoting, when a backslash
escapes between double quotes and when it does not. -/
def Quoting.step (escapes : Bool) : Quoting → UInt8 → Quoting
  | .plain, c => if c = 34 then .double else if c = 39 then .single else .plain
  | .double, c => if c = 34 then .plain else if escapes ∧ c = 92 then .escape else .double
  | .escape, _ => .double
  | .single, c => if c = 39 then .plain else .single

/-- The quoting in which a line is read behind these characters. -/
def Quoting.behind (escapes : Bool) (q : Quoting) (before : List UInt8) : Quoting :=
  before.foldl (Quoting.step escapes) q

/-- What stands behind these characters stands outside of quotes. -/
def Outside (escapes : Bool) (before : List UInt8) : Prop :=
  Quoting.behind escapes .plain before = .plain

/-- A bar behind `before` and in front of `after` with a space on both sides. -/
structure SpacedBar (line before after : List UInt8) : Prop where
  split : line = before ++ 124 :: after
  left : before.getLast? = some 32
  right : after.head? = some 32

/-- The first spaced bar outside of quotes, or none when there is none. -/
def FirstBar (outside : List UInt8 → Prop) (line : List UInt8) :
    Option (List UInt8 × List UInt8) → Prop
  | none => ∀ before after, SpacedBar line before after → ¬ outside before
  | some (before, after) => SpacedBar line before after ∧ outside before ∧
      ∀ b a, SpacedBar line b a → outside b → before.length ≤ b.length

/-- No spaced bar changes sides with the meaning of the backslash, unless one before it is
outside of quotes with either. -/
def Unmoved (line : List UInt8) : Prop :=
  ∀ before after, SpacedBar line before after →
    (∀ b a, SpacedBar line b a → b.length < before.length →
      ¬ (Outside true b ∧ Outside false b)) →
    (Outside true before ↔ Outside false before)

@[simp] theorem Quoting.behind_nil : q.behind escapes [] = q := rfl

theorem Quoting.behind_cons :
    q.behind escapes (c :: before) = (q.step escapes c).behind escapes before := rfl

theorem Quoting.behind_append {more : List UInt8} :
    q.behind escapes (before ++ more) = (q.behind escapes before).behind escapes more :=
  List.foldl_append

/-- One character of `next_token`. -/
theorem scanToken_step {rest : List UInt8} (q : Quoting) (c : UInt8) (out : List UInt8)
    (more : rest ≠ []) :
    q = .plain ∧ isSpace c = true ∨
      ∃ out', scanToken q (c :: rest) out = scanToken (q.step true c) rest out' := by
  cases q with
  | plain =>
      by_cases blank : isSpace c = true
      · exact .inl ⟨rfl, blank⟩
      · right
        rw [scanToken, if_neg blank, Quoting.step]
        by_cases double : c = 34
        · exact ⟨out, by rw [if_pos double, if_pos double]⟩
        · rw [if_neg double, if_neg double]
          by_cases single : c = 39
          · exact ⟨out, by rw [if_pos single, if_pos single]⟩
          · exact ⟨out ++ [c], by rw [if_neg single, if_neg single]⟩
  | double =>
      right
      rw [scanToken, Quoting.step]
      by_cases double : c = 34
      · exact ⟨out, by rw [if_pos double, if_pos double]⟩
      · rw [if_neg double, if_neg double]
        by_cases slash : c = 92
        · exact ⟨out, by rw [if_pos ⟨slash, more⟩, if_pos ⟨rfl, slash⟩]⟩
        · exact ⟨out ++ [c], by rw [if_neg fun h => slash h.1, if_neg fun h => slash h.2]⟩
  | escape => exact .inr ⟨out ++ [unescape c], by rw [scanToken, Quoting.step]⟩
  | single =>
      right
      rw [scanToken, Quoting.step]
      by_cases single : c = 39
      · exact ⟨out, by rw [if_pos single, if_pos single]⟩
      · exact ⟨out ++ [c], by rw [if_neg single, if_neg single]⟩

/-- A call of `next_token` that stops within the characters stops at a blank outside of quotes,
and otherwise it reads what is behind them in the quoting they leave. -/
theorem scanToken_reads (out : List UInt8) (more : after ≠ []) :
    (∃ out', scanToken q (before ++ after) out =
        scanToken (q.behind true before) after out') ∨
      ∃ token blank rest, before = token ++ blank :: rest ∧ isSpace blank = true ∧
        q.behind true token = .plain ∧
        (scanToken q (before ++ after) out).2 = rest ++ after := by
  induction before generalizing q out with
  | nil => exact .inl ⟨out, rfl⟩
  | cons c before ih =>
      rcases scanToken_step q c out (List.append_ne_nil_of_right_ne_nil before more) with
        ⟨rfl, blank⟩ | ⟨out₁, step⟩
      · right
        refine ⟨[], c, before, rfl, blank, rfl, ?_⟩
        rw [List.cons_append, scanToken, if_pos blank]
      · rw [List.cons_append, step]
        rcases ih out₁ (q := q.step true c) with
          ⟨out₂, reads⟩ | ⟨token, blank, rest, split, space, plain, rest_eq⟩
        · exact .inl ⟨out₂, reads⟩
        · exact .inr ⟨c :: token, blank, rest, by rw [split, List.cons_append], space, plain,
            rest_eq⟩

end Quotes

section Scan

variable {q : Quoting} {before line : List UInt8} {c : UInt8}

/-- The flags of `handle_pipe`. -/
def Quoting.inSquote : Quoting → Bool
  | .single => true
  | _ => false

def Quoting.inDquote : Quoting → Bool
  | .double => true
  | _ => false

/-- A bar of the line, seen from behind the first of its characters. -/
theorem SpacedBar.at_char {whole b a : List UInt8} (bar : SpacedBar whole b a)
    (split : whole = before ++ c :: line) (le : before.length ≤ b.length) :
    (b = before ∧ c = 124 ∧ a = line) ∨ ∃ mid, b = before ++ c :: mid := by
  have same : before ++ c :: line = b ++ 124 :: a := split.symm.trans bar.split
  obtain ⟨mid, rfl, rest⟩ | ⟨mid, rfl, rest⟩ := List.append_eq_append_iff.mp same
  · cases mid with
    | nil =>
        obtain ⟨rfl, rfl⟩ := List.cons.inj rest
        exact .inl ⟨List.append_nil _, rfl, rfl⟩
    | cons d mid =>
        obtain ⟨rfl, -⟩ := List.cons.inj rest
        exact .inr ⟨mid, rfl⟩
  · cases mid with
    | nil =>
        obtain ⟨rfl, rfl⟩ := List.cons.inj rest
        exact .inl ⟨(List.append_nil _).symm, rfl, rfl⟩
    | cons d mid => simp at le

/-- What the search has found when no bar before it was outside. -/
theorem findBar_first {whole : List UInt8} (split : whole = before ++ line)
    (mode : Quoting.behind false .plain before = q) (noEscape : q ≠ .escape)
    (none : ∀ b a, SpacedBar whole b a → Outside false b → before.length ≤ b.length) :
    FirstBar (Outside false) whole (findBar before q.inSquote q.inDquote line) := by
  induction line generalizing before q with
  | nil =>
      intro b a bar outside
      have le := none b a bar outside
      have whole_eq := congrArg List.length (split.symm.trans bar.split)
      simp only [List.length_append, List.length_cons, List.length_nil] at whole_eq
      omega
  | cons c rest ih =>
      -- The search goes on when no bar stands here.
      have goes : ∀ q', q.step false c = q' → q' ≠ .escape →
          (c = 124 → q = .plain → ¬ (before.getLast? = some 32 ∧ rest.head? = some 32)) →
          FirstBar (Outside false) whole
            (findBar (before ++ [c]) q'.inSquote q'.inDquote rest) := by
        intro q' step noEscape' notHere
        apply ih
        · rw [split, List.append_assoc, List.singleton_append]
        · rw [Quoting.behind_append, mode, ← step]
          rfl
        · exact noEscape'
        · intro b a bar outside
          rcases bar.at_char split (none b a bar outside) with ⟨rfl, here, rfl⟩ | ⟨mid, rfl⟩
          · exact absurd ⟨bar.left, bar.right⟩ (notHere here (mode.symm.trans outside))
          · simp
      cases q with
      | plain =>
          by_cases single : c = 39
          · rw [findBar, if_pos ⟨single, rfl⟩]
            exact goes .single (by simp [Quoting.step, single]) (by simp) (by simp [single])
          · rw [findBar, if_neg fun h => single h.1]
            by_cases double : c = 34
            · rw [if_pos ⟨double, rfl⟩]
              exact goes .double (by simp [Quoting.step, double]) (by simp) (by simp [double])
            · rw [if_neg fun h => double h.1]
              by_cases here : c = 124 ∧ before.getLast? = some 32 ∧ rest.head? = some 32
              · obtain ⟨rfl, left, right⟩ := here
                rw [if_pos ⟨rfl, rfl, rfl, left, right⟩]
                exact ⟨⟨split, left, right⟩, mode, none⟩
              · rw [if_neg fun h => here ⟨h.1, h.2.2.2⟩]
                exact goes .plain (by simp [Quoting.step, single, double]) (by simp)
                  fun bar _ sides => here ⟨bar, sides⟩
      | double =>
          rw [findBar, if_neg (by simp [Quoting.inDquote])]
          by_cases double : c = 34
          · rw [if_pos ⟨double, rfl⟩]
            exact goes .plain (by simp [Quoting.step, double]) (by simp) (by simp)
          · rw [if_neg fun h => double h.1, if_neg (by simp [Quoting.inDquote])]
            exact goes .double (by simp [Quoting.step, double]) (by simp) (by simp)
      | escape => exact absurd rfl noEscape
      | single =>
          by_cases single : c = 39
          · rw [findBar, if_pos ⟨single, rfl⟩]
            exact goes .plain (by simp [Quoting.step, single]) (by simp) (by simp)
          · rw [findBar, if_neg fun h => single h.1, if_neg (by simp [Quoting.inSquote]),
              if_neg (by simp [Quoting.inSquote])]
            exact goes .single (by simp [Quoting.step, single]) (by simp) (by simp)

theorem handlePipe_first (w : Window) (line : List UInt8) :
    FirstBar (Outside false) line (handlePipe w line).1 := by
  have first : FirstBar (Outside false) line (findBar [] false false line) :=
    findBar_first (q := .plain) rfl rfl (by simp) fun _ _ _ _ => Nat.zero_le _
  unfold handlePipe
  cases found : findBar [] false false line with
  | none => rw [found] at first; exact first
  | some parts => rw [found] at first; exact first

end Scan

section Agreement

variable {line : List UInt8}

/-- Bars of one line at the same place are the same. -/
theorem SpacedBar.unique {before after b a : List UInt8} (bar : SpacedBar line before after)
    (other : SpacedBar line b a) (same : b.length = before.length) : b = before :=
  (List.append_inj (other.split.symm.trans bar.split) same).1

/-- Two readings have the same first bar exactly when each bar that no common one precedes is
outside with both or with neither. -/
theorem firstBar_iff_unmoved {result : Option (List UInt8 × List UInt8)}
    (first : FirstBar (Outside false) line result) :
    FirstBar (Outside true) line result ↔ Unmoved line := by
  constructor
  · intro agrees before after bar earlier
    cases result with
    | none => exact iff_of_false (agrees before after bar) (first before after bar)
    | some parts =>
        obtain ⟨start, after'⟩ := parts
        obtain ⟨here, outside, least⟩ := first
        obtain ⟨-, outside', least'⟩ := agrees
        have le : before.length ≤ start.length := by
          by_contra later
          exact earlier start after' here (by omega) ⟨outside', outside⟩
        by_cases same : before.length = start.length
        · have equal : before = start := here.unique bar same
          rw [equal]
          exact iff_of_true outside' outside
        · apply iff_of_false
          · intro found
            have := least' before after bar found
            omega
          · intro found
            have := least before after bar found
            omega
  · intro unmoved
    cases result with
    | none =>
        intro before after bar outside
        have both := unmoved before after bar fun b a other _ pair => first b a other pair.2
        exact first before after bar (both.mp outside)
    | some parts =>
        obtain ⟨start, after'⟩ := parts
        obtain ⟨here, outside, least⟩ := first
        have side : ∀ b a, SpacedBar line b a → b.length ≤ start.length →
            (Outside true b ↔ Outside false b) := by
          intro b a bar le
          apply unmoved b a bar
          intro b' a' bar' before pair
          have := least b' a' bar' pair.2
          omega
        refine ⟨here, (side start after' here (Nat.le_refl _)).mpr outside, ?_⟩
        intro b a bar outside'
        by_contra later
        have found := (side b a bar (by omega)).mp outside'
        exact later (least b a bar found)

/-- What `handle_pipe` does is right: it splits the line at its first spaced bar outside of
quotes, or leaves everything alone when there is none. -/
def SplitsRight (w : Window) (line : List UInt8) : Prop :=
  FirstBar (Outside true) line (handlePipe w line).1 ∧
    (handlePipe w line).2 =
      match (handlePipe w line).1 with
      | none => w
      | some (before, after) => storePipe w before after

/-- `handle_pipe` agrees with `next_token` exactly when no bar changes sides. -/
theorem pipe_split_iff (w : Window) (line : List UInt8) : SplitsRight w line ↔ Unmoved line := by
  have stored : (handlePipe w line).2 =
      match (handlePipe w line).1 with
      | none => w
      | some (before, after) => storePipe w before after := by
    unfold handlePipe
    cases findBar [] false false line <;> rfl
  rw [← firstBar_iff_unmoved (handlePipe_first w line)]
  exact and_iff_left stored

/-- The quoting as `handle_pipe` sees it. -/
def Quoting.flat : Quoting → Quoting
  | .escape => .double
  | q => q

theorem Quoting.step_flat {q : Quoting} {c : UInt8} (free : q = .escape → c ≠ 34) :
    (q.step true c).flat = q.flat.step false c := by
  cases q with
  | plain =>
      by_cases double : c = 34
      · simp [step, flat, double]
      · by_cases single : c = 39 <;> simp [step, flat, double, single]
  | double =>
      by_cases double : c = 34
      · simp [step, flat, double]
      · by_cases slash : c = 92 <;> simp [step, flat, double, slash]
  | escape => simp [step, flat, free rfl]
  | single => by_cases single : c = 39 <;> simp [step, flat, single]

/-- While no double quote is escaped, both meanings of the backslash come to the same. -/
theorem Quoting.behind_flat {q : Quoting} {before : List UInt8}
    (free : ∀ b a, before = b ++ 34 :: a → q.behind true b ≠ .escape) :
    (q.behind true before).flat = q.flat.behind false before := by
  induction before generalizing q with
  | nil => rfl
  | cons c before ih =>
      have here : q = .escape → c ≠ 34 := by
        rintro escape rfl
        exact free [] before rfl escape
      rw [behind_cons, behind_cons, ← step_flat here]
      apply ih
      intro b a split
      exact free (c :: b) a (by rw [split, List.cons_append])

theorem unmoved_of_no_escaped
    (free : ∀ b a, line = b ++ 34 :: a → Quoting.behind true .plain b ≠ .escape) :
    Unmoved line := by
  intro before after bar _
  have same : (Quoting.behind true .plain before).flat = Quoting.behind false .plain before := by
    apply Quoting.behind_flat
    intro b a split
    apply free b (a ++ 124 :: after)
    rw [bar.split, split, List.append_assoc, List.cons_append]
  rw [Outside, Outside, ← same]
  cases Quoting.behind true .plain before <;> simp [Quoting.flat]

/-- The line `"\" | x"`, which is one token. -/
theorem escaped_quote_splits :
    ¬ SplitsRight Buffer.zero [34, 92, 34, 32, 124, 32, 120, 34] := by
  rintro ⟨first, -⟩
  have outside : Outside true [34, 92, 34, 32] := first.2.1
  unfold Outside at outside
  cases outside

end Agreement

end Ncd15.Xcpm
