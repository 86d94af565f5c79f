import Ncd15.Xcpm.Arguments
import Ncd15.Library.Prog

/-!
# The tokenizer in place

`next_token` stores the token over what it has read of the line, with a write cursor that
follows the read cursor.  It delivers what `nextToken` does, which copies the token elsewhere.
-/

namespace Ncd15.Xcpm

open Ncd15.Library

section Tape

/-- The memory of a line, the first position behind all that was read, and whether every store
so far fell on what had been read. -/
structure Tape where
  mem : Nat → UInt8
  seen : Nat
  behind : Bool

/-- The position has been read. -/
def Tape.look (t : Tape) (p : Nat) : Tape := { t with seen := max t.seen (p + 1) }

def Tape.put (t : Tape) (p : Nat) (c : UInt8) : Tape :=
  { t with mem := Function.update t.mem p c, behind := t.behind && p < t.seen }

/-- `*p`. -/
def Tape.load (p : Nat) : Prog Tape UInt8 := fun t => some (t.mem p, t.look p)

/-- `*p = c`. -/
def Tape.store (p : Nat) (c : UInt8) : Prog Tape Unit := modify (·.put p c)

@[simp] theorem Tape.put_mem (t : Tape) (p : Nat) (c : UInt8) :
    (t.put p c).mem = Function.update t.mem p c := rfl

@[simp] theorem Tape.put_behind (t : Tape) (p : Nat) (c : UInt8) :
    (t.put p c).behind = (t.behind && decide (p < t.seen)) := rfl

@[simp] theorem Tape.put_seen (t : Tape) (p : Nat) (c : UInt8) : (t.put p c).seen = t.seen := rfl

theorem Tape.store_run (t : Tape) (p : Nat) (c : UInt8) :
    Tape.store p c t = some ((), t.put p c) := rfl

/-- A memory of which nothing has been read. -/
def Tape.fresh (mem : Nat → UInt8) : Tape := { mem := mem, seen := 0, behind := true }

/-- A string and its NUL lie at a position. -/
def Spells (mem : Nat → UInt8) : Nat → List UInt8 → Prop
  | p, [] => mem p = 0
  | p, c :: s => mem p = c ∧ c ≠ 0 ∧ Spells mem (p + 1) s

end Tape

section Model

/-- The read cursor and the write cursor. -/
abbrev Cursors := Nat × Nat

/-- `while (*p && isspace_(*p)) p++`. -/
def skipBlank (p : Nat) : Prog Tape (Nat ⊕ Nat) := do
  let c ← Tape.load p
  pure (if c ≠ 0 ∧ isSpace c then .inl (p + 1) else .inr p)

/-- One round between double quotes. -/
def doubleRound (at_ : Cursors) : Prog Tape (Cursors ⊕ Cursors) := do
  let (r, out) := at_
  let c ← Tape.load r
  if c = 0 ∨ c = 34 then pure (.inr (r, out))
  else if c = 92 then do
    let next ← Tape.load (r + 1)
    if next ≠ 0 then do
      let e ← Tape.load (r + 1)
      Tape.store out (unescape e)
      pure (.inl (r + 2, out + 1))
    else do
      Tape.store out c
      pure (.inl (r + 1, out + 1))
  else do
    Tape.store out c
    pure (.inl (r + 1, out + 1))

/-- One round between single quotes. -/
def singleRound (at_ : Cursors) : Prog Tape (Cursors ⊕ Cursors) := do
  let (r, out) := at_
  let c ← Tape.load r
  if c = 0 ∨ c = 39 then pure (.inr (r, out))
  else do
    Tape.store out c
    pure (.inl (r + 1, out + 1))

/-- `if (*r == quote) r++`. -/
def closeQuote (quote : UInt8) (at_ : Cursors) : Prog Tape Cursors := do
  let c ← Tape.load at_.1
  pure (if c = quote then (at_.1 + 1, at_.2) else at_)

/-- One round of the loop over a token. -/
def tokenRound (rounds : Nat) (at_ : Cursors) : Prog Tape (Cursors ⊕ Cursors) := do
  let (r, out) := at_
  let c ← Tape.load r
  if c = 0 ∨ isSpace c then pure (.inr (r, out))
  else if c = 34 then do
    let at_ ← Prog.loop doubleRound rounds (r + 1, out)
    let at_ ← closeQuote 34 at_
    pure (.inl at_)
  else if c = 39 then do
    let at_ ← Prog.loop singleRound rounds (r + 1, out)
    let at_ ← closeQuote 39 at_
    pure (.inl at_)
  else do
    Tape.store out c
    pure (.inl (r + 1, out + 1))

/-- `if (*r) { *r = 0; r++; } *out = 0`: the position of the rest. -/
def endToken (at_ : Cursors) : Prog Tape Nat := do
  let (r, out) := at_
  let c ← Tape.load r
  if c ≠ 0 then do
    Tape.store r 0
    Tape.store out 0
    pure (r + 1)
  else do
    Tape.store out 0
    pure r

/-- `next_token`: the token, or the null pointer, and the position it leaves in `*pp`. -/
def nextTokenAt (rounds p : Nat) : Prog Tape (Option Nat × Nat) := do
  let p ← Prog.loop skipBlank rounds p
  let c ← Tape.load p
  if c = 0 then pure (none, p)
  else do
    let at_ ← Prog.loop (tokenRound rounds) rounds (p, p)
    let rest ← endToken at_
    pure (some p, rest)

/-- `while ((tok = next_token(&p)) != 0)` with the tokens so far. -/
def tokensRound (rounds : Nat) (at_ : Nat × List Nat) :
    Prog Tape ((Nat × List Nat) ⊕ List Nat) := do
  let (found, rest) ← nextTokenAt rounds at_.1
  match found with
  | none => pure (.inr at_.2)
  | some tok => pure (.inl (rest, at_.2 ++ [tok]))

/-- The tokens of a whole line. -/
def tokensAt (rounds p : Nat) : Prog Tape (List Nat) :=
  Prog.loop (tokensRound rounds) rounds (p, [])

end Model

section Spelling

variable {mem mem' : Nat → UInt8} {p : Nat} {s : List UInt8}

theorem Spells.head (spells : Spells mem p s) : mem p = s.headD 0 := by
  cases s with
  | nil => exact spells
  | cons c s => exact spells.1

/-- A string lies where it was when nothing changes up to its NUL. -/
theorem Spells.frame (spells : Spells mem p s)
    (same : ∀ i, p ≤ i → i ≤ p + s.length → mem' i = mem i) : Spells mem' p s := by
  induction s generalizing p with
  | nil => exact (same p (Nat.le_refl p) (Nat.le_refl p)).trans spells
  | cons c s ih =>
      obtain ⟨here, nonzero, later⟩ := spells
      have next : Spells mem' (p + 1) s := by
        apply ih later
        intro i above below
        apply same i (by omega)
        rw [List.length_cons]
        omega
      exact ⟨(same p (Nat.le_refl p) (by omega)).trans here, nonzero, next⟩

/-- Characters in a row, and a NUL behind them. -/
theorem spells_of_row (clean : 0 ∉ s) (row : ∀ i, (h : i < s.length) → mem (p + i) = s[i])
    (nul : mem (p + s.length) = 0) : Spells mem p s := by
  induction s generalizing p with
  | nil => exact nul
  | cons c s ih =>
      have rest : Spells mem (p + 1) s := by
        apply ih (fun member => clean (List.mem_cons_of_mem c member))
        · intro i small
          have there := row (i + 1) (Nat.succ_lt_succ small)
          rw [Nat.add_assoc, Nat.add_comm 1 i]
          exact there
        · rw [Nat.add_assoc, Nat.add_comm 1]
          exact nul
      have nonzero : c ≠ 0 := fun zero => clean (by simp [zero])
      exact ⟨row 0 (Nat.succ_pos _), nonzero, rest⟩

theorem spells_getD (clean : 0 ∉ s) : Spells (fun i => s.getD i 0) 0 s := by
  apply spells_of_row clean
  · intro i small
    rw [Nat.zero_add]
    exact List.getD_eq_getElem s 0 small
  · rw [Nat.zero_add]
    exact List.getD_eq_default s 0 (Nat.le_refl _)

end Spelling

section Chase

variable {mem : Nat → UInt8} {start r out : Nat} {rest tok : List UInt8} {t : Tape} {c : UInt8}

/-- The token so far lies behind the read cursor, and nothing else has changed. -/
structure Chasing (mem : Nat → UInt8) (start r out : Nat) (rest tok : List UInt8) (t : Tape) :
    Prop where
  left : Spells mem r rest
  clean : 0 ∉ tok
  token : ∀ i, (h : i < tok.length) → t.mem (start + i) = tok[i]
  cursor : out = start + tok.length
  le : out ≤ r
  same : ∀ i, i < start ∨ r ≤ i → t.mem i = mem i
  seen : r ≤ t.seen
  behind : t.behind = true

theorem Chasing.look (chasing : Chasing mem start r out rest tok t) {p : Nat} (from_ : r ≤ p) :
    ∃ t', Tape.load p t = some (mem p, t') ∧ Chasing mem start r out rest tok t' ∧
      p < t'.seen := by
  have here : t.mem p = mem p := chasing.same p (.inr from_)
  have seen : r ≤ max t.seen (p + 1) := by omega
  refine ⟨t.look p, ?_, { chasing with seen }, ?_⟩
  · rw [Tape.load, here]
  · exact Nat.lt_of_lt_of_le (Nat.lt_succ_self p) (Nat.le_max_right _ _)

/-- What is read at the read cursor is still the line. -/
theorem Chasing.load (chasing : Chasing mem start r out rest tok t) :
    ∃ t', Tape.load r t = some (rest.headD 0, t') ∧ Chasing mem start r out rest tok t' ∧
      r < t'.seen := by
  rw [← chasing.left.head]
  exact chasing.look (Nat.le_refl r)

theorem Chasing.peek (chasing : Chasing mem start r out (c :: rest) tok t) :
    ∃ t', Tape.load (r + 1) t = some (rest.headD 0, t') ∧
      Chasing mem start r out (c :: rest) tok t' ∧ r + 1 < t'.seen := by
  rw [← chasing.left.2.2.head]
  exact chasing.look (Nat.le_succ r)

theorem Chasing.pass (chasing : Chasing mem start r out (c :: rest) tok t)
    (ahead : r < t.seen) : Chasing mem start (r + 1) out rest tok t where
  left := chasing.left.2.2
  clean := chasing.clean
  token := chasing.token
  cursor := chasing.cursor
  le := Nat.le_succ_of_le chasing.le
  same i outside := chasing.same i (by omega)
  seen := ahead
  behind := chasing.behind

/-- The write cursor follows the read cursor. -/
theorem Chasing.store {e : UInt8} (chasing : Chasing mem start r out (c :: rest) tok t)
    (ahead : r < t.seen) (nonzero : e ≠ 0) :
    ∃ t', Tape.store out e t = some ((), t') ∧
      Chasing mem start (r + 1) (out + 1) rest (tok ++ [e]) t' := by
  have le := chasing.le
  have cursor := chasing.cursor
  refine ⟨t.put out e, Tape.store_run t out e, ?_⟩
  constructor
  case left => exact chasing.left.2.2
  case clean =>
    rw [List.mem_append, List.mem_singleton, not_or]
    exact ⟨chasing.clean, nonzero.symm⟩
  case token =>
    intro i small
    rw [List.length_append, List.length_singleton] at small
    by_cases last : i = tok.length
    · subst last
      simp [← cursor]
    · have old : i < tok.length := by omega
      have before : start + i ≠ out := by omega
      rw [Tape.put_mem, Function.update_of_ne before, chasing.token i old,
        List.getElem_append_left old]
  case cursor => rw [List.length_append, List.length_singleton, cursor, Nat.add_assoc]
  case le => omega
  case same =>
    intro i outside
    have other : i ≠ out := by omega
    rw [Tape.put_mem, Function.update_of_ne other]
    exact chasing.same i (by omega)
  case seen => exact ahead
  case behind =>
    have covered : out < t.seen := by omega
    simp [chasing.behind, covered]

/-- The cursors have come to a later place of the line, and the copy of the token from there
is still the same. -/
def TokenScanned (mem : Nat → UInt8) (start : Nat) (before after : Quoting) (rest tok : List UInt8)
    (at_ : Cursors) (rest' : List UInt8) (t' : Tape) : Prop :=
  ∃ tok', Chasing mem start at_.1 at_.2 rest' tok' t' ∧
    scanToken before rest tok = scanToken after rest' tok'

/-- A round stops where it is, or it reads on in the same quoting. -/
def RoundScans (mem : Nat → UInt8) (start : Nat) (q : Quoting) (stops : List UInt8 → Prop)
    (body : Cursors → Prog Tape (Cursors ⊕ Cursors)) (r out : Nat) (rest tok : List UInt8)
    (t : Tape) : Prop :=
  (∃ t', body (r, out) t = some (.inr (r, out), t') ∧
    Chasing mem start r out rest tok t' ∧ stops rest) ∨
  ∃ at_ rest' t', body (r, out) t = some (.inl at_, t') ∧
    TokenScanned mem start q q rest tok at_ rest' t' ∧ rest'.length < rest.length

/-- A loop each round of which reads on comes to a place where it stops. -/
theorem loop_scanned {body : Cursors → Prog Tape (Cursors ⊕ Cursors)} {q : Quoting}
    {stops : List UInt8 → Prop} {limit : Nat}
    (round : ∀ {r out rest tok t}, rest.length < limit → Chasing mem start r out rest tok t →
      RoundScans mem start q stops body r out rest tok t)
    {rounds : Nat} (chasing : Chasing mem start r out rest tok t) (small : rest.length < limit)
    (enough : rest.length < rounds) :
    ∃ at_ rest' t', Prog.loop body rounds (r, out) t = some (at_, t') ∧
      TokenScanned mem start q q rest tok at_ rest' t' ∧ rest'.length ≤ rest.length ∧
      stops rest' := by
  induction rounds generalizing r out rest tok t with
  | zero => exact absurd enough (Nat.not_lt_zero _)
  | succ rounds ih =>
      rcases round small chasing with ⟨t', run, stays, stop⟩ | ⟨at_, rest₁, t₁, run, scanned, less⟩
      · exact ⟨(r, out), rest, t', Prog.loop_inr run, ⟨tok, stays, rfl⟩, Nat.le_refl _, stop⟩
      · obtain ⟨tok₁, chasing₁, same⟩ := scanned
        obtain ⟨at', rest', t', later, ⟨tok', reached, same'⟩, shorter, stop⟩ :=
          ih chasing₁ (by omega) (by omega)
        have whole : scanToken q rest tok = scanToken q rest' tok' := same.trans same'
        exact ⟨at', rest', t', (Prog.loop_inl run).trans later, ⟨tok', reached, whole⟩,
          by omega, stop⟩

end Chase

section Rounds

variable {mem : Nat → UInt8} {start r out : Nat} {rest tok : List UInt8} {t : Tape}

theorem unescape_ne_zero {c : UInt8} (nonzero : c ≠ 0) : unescape c ≠ 0 := by
  unfold unescape
  split
  · decide
  · split
    · decide
    · split
      · decide
      · exact nonzero

/-- The line ends, or it goes on with a quote. -/
def AtQuote (quote : UInt8) (rest : List UInt8) : Prop := rest = [] ∨ rest.head? = some quote

theorem doubleRound_run (chasing : Chasing mem start r out rest tok t) :
    RoundScans mem start .double (AtQuote 34) doubleRound r out rest tok t := by
  rw [RoundScans]
  obtain ⟨t₁, read, chasing₁, ahead⟩ := chasing.load
  cases rest with
  | nil =>
      left
      refine ⟨t₁, ?_, chasing₁, .inl rfl⟩
      rw [doubleRound, Prog.bind_eq_of_run read]
      rfl
  | cons c rest =>
      have nonzero : c ≠ 0 := chasing.left.2.1
      simp only [List.headD_cons] at read
      by_cases quote : c = 34
      · subst quote
        left
        refine ⟨t₁, ?_, chasing₁, .inr rfl⟩
        rw [doubleRound, Prog.bind_eq_of_run read]
        rfl
      · right
        have goes : ¬ (c = 0 ∨ c = 34) := by simp [nonzero, quote]
        by_cases slash : c = 92
        · obtain ⟨t₂, peek, chasing₂, ahead₂⟩ := chasing₁.peek
          cases rest with
          | nil =>
              obtain ⟨t₃, stored, chasing₃⟩ :=
                chasing₂.store (Nat.lt_of_succ_lt ahead₂) nonzero
              refine ⟨(r + 1, out + 1), [], t₃, ?_, ⟨tok ++ [c], chasing₃, ?_⟩, Nat.one_pos⟩
              · rw [doubleRound, Prog.bind_eq_of_run read, if_neg goes, if_pos slash,
                  Prog.bind_eq_of_run peek, if_neg (by simp), Prog.bind_eq_of_run stored]
                rfl
              · simp [scanToken, quote]
          | cons e rest =>
              have escaped : e ≠ 0 := chasing.left.2.2.2.1
              have passed := chasing₂.pass (Nat.lt_of_succ_lt ahead₂)
              obtain ⟨t₃, again, chasing₃, ahead₃⟩ := passed.load
              obtain ⟨t₄, stored, chasing₄⟩ := chasing₃.store ahead₃ (unescape_ne_zero escaped)
              simp only [List.headD_cons] at peek again
              refine ⟨(r + 2, out + 1), rest, t₄, ?_, ⟨tok ++ [unescape e], chasing₄, ?_⟩, ?_⟩
              · rw [doubleRound, Prog.bind_eq_of_run read, if_neg goes, if_pos slash,
                  Prog.bind_eq_of_run peek, if_pos escaped, Prog.bind_eq_of_run again,
                  Prog.bind_eq_of_run stored]
                rfl
              · rw [scanToken, if_neg quote, if_pos ⟨slash, by simp⟩, scanToken]
              · exact Nat.lt_add_of_pos_right Nat.two_pos
        · obtain ⟨t₂, stored, chasing₂⟩ := chasing₁.store ahead nonzero
          refine ⟨(r + 1, out + 1), rest, t₂, ?_, ⟨tok ++ [c], chasing₂, ?_⟩, Nat.lt_succ_self _⟩
          · rw [doubleRound, Prog.bind_eq_of_run read, if_neg goes, if_neg slash,
              Prog.bind_eq_of_run stored]
            rfl
          · rw [scanToken, if_neg quote, if_neg (by simp [slash])]

theorem singleRound_run (chasing : Chasing mem start r out rest tok t) :
    RoundScans mem start .single (AtQuote 39) singleRound r out rest tok t := by
  rw [RoundScans]
  obtain ⟨t₁, read, chasing₁, ahead⟩ := chasing.load
  cases rest with
  | nil =>
      left
      refine ⟨t₁, ?_, chasing₁, .inl rfl⟩
      rw [singleRound, Prog.bind_eq_of_run read]
      rfl
  | cons c rest =>
      have nonzero : c ≠ 0 := chasing.left.2.1
      simp only [List.headD_cons] at read
      by_cases quote : c = 39
      · subst quote
        left
        refine ⟨t₁, ?_, chasing₁, .inr rfl⟩
        rw [singleRound, Prog.bind_eq_of_run read]
        rfl
      · right
        obtain ⟨t₂, stored, chasing₂⟩ := chasing₁.store ahead nonzero
        refine ⟨(r + 1, out + 1), rest, t₂, ?_, ⟨tok ++ [c], chasing₂, ?_⟩, Nat.lt_succ_self _⟩
        · rw [singleRound, Prog.bind_eq_of_run read, if_neg (by simp [nonzero, quote]),
            Prog.bind_eq_of_run stored]
          rfl
        · rw [scanToken, if_neg quote]

/-- Behind a quote the token goes on. -/
theorem closeQuote_run {quote : UInt8} {q : Quoting} (nonzero : quote ≠ 0)
    (chasing : Chasing mem start r out rest tok t) (stop : AtQuote quote rest)
    (closes : ∀ rest, scanToken q (quote :: rest) tok = scanToken .plain rest tok) :
    ∃ at_ rest' t', closeQuote quote (r, out) t = some (at_, t') ∧
      TokenScanned mem start q .plain rest tok at_ rest' t' ∧ rest'.length ≤ rest.length := by
  obtain ⟨t₁, read, chasing₁, ahead⟩ := chasing.load
  cases rest with
  | nil =>
      refine ⟨(r, out), [], t₁, ?_, ⟨tok, chasing₁, ?_⟩, Nat.le_refl _⟩
      · rw [closeQuote, Prog.bind_eq_of_run read, List.headD_nil, if_neg nonzero.symm]
        rfl
      · rw [scanToken, scanToken]
  | cons c rest =>
      have same : c = quote := by simpa [AtQuote] using stop
      subst same
      refine ⟨(r + 1, out), rest, t₁, ?_, ⟨tok, chasing₁.pass ahead, closes rest⟩,
        Nat.le_succ _⟩
      rw [closeQuote, Prog.bind_eq_of_run read, List.headD_cons, if_pos rfl]
      rfl

/-- A piece between quotes, from behind the first of them on. -/
theorem quoted_run {body : Cursors → Prog Tape (Cursors ⊕ Cursors)} {q : Quoting}
    {quote : UInt8} (nonzero : quote ≠ 0)
    (round : ∀ {r out rest tok t}, Chasing mem start r out rest tok t →
      RoundScans mem start q (AtQuote quote) body r out rest tok t)
    (closes : ∀ rest tok, scanToken q (quote :: rest) tok = scanToken .plain rest tok)
    (chasing : Chasing mem start r out rest tok t) {rounds : Nat}
    (enough : rest.length < rounds) :
    ∃ at_ rest' t',
      (Prog.loop body rounds (r, out) >>= closeQuote quote) t = some (at_, t') ∧
      TokenScanned mem start q .plain rest tok at_ rest' t' ∧ rest'.length ≤ rest.length := by
  obtain ⟨at₁, rest₁, t₁, looped, ⟨tok₁, chasing₁, same₁⟩, le₁, stop⟩ :=
    loop_scanned (fun _ => round) chasing enough enough
  obtain ⟨at₂, rest₂, t₂, closed, ⟨tok₂, chasing₂, same₂⟩, le₂⟩ :=
    closeQuote_run nonzero chasing₁ stop fun rest => closes rest tok₁
  refine ⟨at₂, rest₂, t₂, ?_, ⟨tok₂, chasing₂, same₁.trans same₂⟩, le₂.trans le₁⟩
  exact (Prog.bind_eq_of_run looped).trans closed

/-- A character at which a token ends. -/
def Ends (rest : List UInt8) : Prop := rest = [] ∨ isSpace (rest.headD 0) = true

theorem tokenRound_run {rounds : Nat} (enough : rest.length < rounds)
    (chasing : Chasing mem start r out rest tok t) :
    RoundScans mem start .plain Ends (tokenRound rounds) r out rest tok t := by
  rw [RoundScans]
  obtain ⟨t₁, read, chasing₁, ahead⟩ := chasing.load
  cases rest with
  | nil =>
      left
      refine ⟨t₁, ?_, chasing₁, .inl rfl⟩
      rw [tokenRound, Prog.bind_eq_of_run read]
      rfl
  | cons c rest =>
      have nonzero : c ≠ 0 := chasing.left.2.1
      have enough' : rest.length < rounds := Nat.lt_of_succ_lt enough
      simp only [List.headD_cons] at read
      by_cases blank : isSpace c = true
      · left
        refine ⟨t₁, ?_, chasing₁, .inr blank⟩
        rw [tokenRound, Prog.bind_eq_of_run read, if_pos (.inr blank)]
        rfl
      · right
        have goes : ¬ (c = 0 ∨ isSpace c = true) := by simp [nonzero, blank]
        by_cases double : c = 34
        · subst double
          obtain ⟨at_, rest', t', run, ⟨tok', reached, same⟩, le⟩ := quoted_run (by decide)
            doubleRound_run (by simp [scanToken]) (chasing₁.pass ahead) enough'
          refine ⟨at_, rest', t', ?_, ⟨tok', reached, ?_⟩, Nat.lt_succ_of_le le⟩
          · rw [tokenRound, Prog.bind_eq_of_run read, if_neg goes, if_pos rfl, ← bind_assoc,
              Prog.bind_eq_of_run run]
            rfl
          · rw [scanToken, if_neg blank, if_pos rfl, same]
        · by_cases single : c = 39
          · subst single
            obtain ⟨at_, rest', t', run, ⟨tok', reached, same⟩, le⟩ := quoted_run (by decide)
              singleRound_run (by simp [scanToken]) (chasing₁.pass ahead) enough'
            refine ⟨at_, rest', t', ?_, ⟨tok', reached, ?_⟩, Nat.lt_succ_of_le le⟩
            · rw [tokenRound, Prog.bind_eq_of_run read, if_neg goes, if_neg double, if_pos rfl,
                ← bind_assoc, Prog.bind_eq_of_run run]
              rfl
            · rw [scanToken, if_neg blank, if_neg double, if_pos rfl, same]
          · obtain ⟨t₂, stored, chasing₂⟩ := chasing₁.store ahead nonzero
            refine ⟨(r + 1, out + 1), rest, t₂, ?_, ⟨tok ++ [c], chasing₂, ?_⟩,
              Nat.lt_succ_self _⟩
            · rw [tokenRound, Prog.bind_eq_of_run read, if_neg goes, if_neg double,
                if_neg single, Prog.bind_eq_of_run stored]
              rfl
            · rw [scanToken, if_neg blank, if_neg double, if_neg single]

end Rounds

section Token

variable {mem : Nat → UInt8} {start r out p : Nat} {rest tok line : List UInt8} {t t' : Tape}

/-- What a call leaves: the token where it says, the rest of the line as it was, no change
elsewhere, and no store beyond what was read. -/
structure Delivered (mem : Nat → UInt8) (p start stop : Nat) (tok rest : List UInt8) (t : Tape) :
    Prop where
  after : p ≤ start
  short : start + tok.length < stop ∨ start + tok.length = stop ∧ rest = []
  token : Spells t.mem start tok
  rest : Spells t.mem stop rest
  same : ∀ i, i < start ∨ stop ≤ i → t.mem i = mem i
  behind : t.behind = true

/-- A NUL at the write cursor ends the token. -/
theorem Chasing.spells {mem' : Nat → UInt8} (chasing : Chasing mem start r out rest tok t)
    (same : ∀ i, i < out → mem' i = t.mem i) (nul : mem' out = 0) : Spells mem' start tok := by
  have cursor := chasing.cursor
  apply spells_of_row chasing.clean
  · intro i small
    rw [same (start + i) (by omega)]
    exact chasing.token i small
  · rw [← cursor]
    exact nul

/-- At the end of the line there is one store. -/
theorem endToken_nil (chasing : Chasing mem start r out [] tok t) :
    ∃ t', endToken (r, out) t = some (r, t') ∧ Delivered mem start start r tok [] t' := by
  obtain ⟨t₁, read, chasing₁, ahead⟩ := chasing.load
  have le := chasing₁.le
  have cursor := chasing₁.cursor
  have nul : mem r = 0 := chasing₁.left
  have same : ∀ i, i < start ∨ r ≤ i → Function.update t₁.mem out 0 i = mem i := by
    intro i outside
    by_cases there : i = out
    · have last : i = r := by omega
      rw [there, Function.update_self, ← there, last, nul]
    · rw [Function.update_of_ne there]
      exact chasing₁.same i outside
  refine ⟨t₁.put out 0, ?_, ?_⟩
  case refine_1 =>
    rw [endToken, Prog.bind_eq_of_run read, if_neg (by simp)]
    rfl
  case refine_2 =>
    constructor
    case after => exact Nat.le_refl start
    case short => rw [← cursor]; simpa using Nat.lt_or_eq_of_le le
    case token =>
      apply chasing₁.spells
      · exact fun i before => Function.update_of_ne (Nat.ne_of_lt before) _ _
      · exact Function.update_self _ _ _
    case rest => exact (same r (.inr (Nat.le_refl r))).trans nul
    case same => exact same
    case behind =>
      have covered : out < t₁.seen := by omega
      simp [chasing₁.behind, covered]

/-- Within the line there are two: one over the blank, and one behind the token. -/
theorem endToken_cons {c : UInt8} (chasing : Chasing mem start r out (c :: rest) tok t) :
    ∃ t', endToken (r, out) t = some (r + 1, t') ∧
      Delivered mem start start (r + 1) tok rest t' := by
  obtain ⟨t₁, read, chasing₁, ahead⟩ := chasing.load
  have le := chasing₁.le
  have cursor := chasing₁.cursor
  have nonzero : c ≠ 0 := chasing₁.left.2.1
  have same : ∀ i, i < start ∨ r + 1 ≤ i →
      Function.update (Function.update t₁.mem r 0) out 0 i = mem i := by
    intro i outside
    have other : i ≠ out ∧ i ≠ r := by omega
    rw [Function.update_of_ne other.1, Function.update_of_ne other.2]
    exact chasing₁.same i (by omega)
  refine ⟨(t₁.put r 0).put out 0, ?_, ?_⟩
  case refine_1 =>
    rw [endToken, Prog.bind_eq_of_run read, if_pos (by simpa using nonzero)]
    rfl
  case refine_2 =>
    constructor
    case after => exact Nat.le_refl start
    case short => exact .inl (by omega)
    case token =>
      apply chasing₁.spells
      · intro i before
        have other : i ≠ out ∧ i ≠ r := by omega
        rw [Tape.put_mem, Tape.put_mem, Function.update_of_ne other.1,
          Function.update_of_ne other.2]
      · exact Function.update_self _ _ _
    case rest => exact chasing₁.left.2.2.frame fun i above _ => same i (.inr above)
    case same => exact same
    case behind =>
      have covered : out < t₁.seen := by omega
      simp [chasing₁.behind, ahead, covered]

theorem endToken_run (chasing : Chasing mem start r out rest tok t) (ends : Ends rest) :
    ∃ stop t', endToken (r, out) t = some (stop, t') ∧
      Delivered mem start start stop tok (scanToken .plain rest tok).2 t' ∧
      (scanToken .plain rest tok).1 = tok := by
  cases rest with
  | nil =>
      obtain ⟨t', run, delivered⟩ := endToken_nil chasing
      exact ⟨r, t', run, delivered, rfl⟩
  | cons c rest =>
      obtain ⟨t', run, delivered⟩ := endToken_cons chasing
      have blank : isSpace c = true := by simpa [Ends] using ends
      rw [scanToken, if_pos blank]
      exact ⟨r + 1, t', run, delivered, rfl⟩

/-- Leading blanks are read and nothing is stored. -/
theorem skipBlank_run {rounds : Nat} (spells : Spells t.mem p line)
    (enough : line.length < rounds) :
    ∃ start t', Prog.loop skipBlank rounds p t = some (start, t') ∧ p ≤ start ∧
      t'.mem = t.mem ∧ t'.behind = t.behind ∧ start < t'.seen ∧
      Spells t.mem start (line.dropWhile isSpace) := by
  induction rounds generalizing p line t with
  | zero => exact absurd enough (Nat.not_lt_zero _)
  | succ rounds ih =>
      have here : t.mem p = line.headD 0 := spells.head
      have stay : p < (t.look p).seen :=
        Nat.lt_of_lt_of_le (Nat.lt_succ_self p) (Nat.le_max_right _ _)
      have read : Tape.load p t = some (line.headD 0, t.look p) := by rw [Tape.load, here]
      cases line with
      | nil =>
          refine ⟨p, t.look p, Prog.loop_inr ?_, Nat.le_refl p, rfl, rfl, stay, spells⟩
          rw [skipBlank, Prog.bind_eq_of_run read]
          rfl
      | cons c line =>
          have nonzero : c ≠ 0 := spells.2.1
          rw [List.headD_cons] at read
          by_cases blank : isSpace c = true
          · have step : skipBlank p t = some (.inl (p + 1), t.look p) := by
              rw [skipBlank, Prog.bind_eq_of_run read, if_pos ⟨nonzero, blank⟩]
              rfl
            have next : Spells (t.look p).mem (p + 1) line := spells.2.2
            obtain ⟨start, t', run, after, mem, behind, seen, found⟩ :=
              ih next (Nat.lt_of_succ_lt_succ enough)
            refine ⟨start, t', (Prog.loop_inl step).trans run, by omega, mem, behind, seen, ?_⟩
            rw [List.dropWhile_cons_of_pos blank]
            exact found
          · refine ⟨p, t.look p, Prog.loop_inr ?_, Nat.le_refl p, rfl, rfl, stay, ?_⟩
            · rw [skipBlank, Prog.bind_eq_of_run read, if_neg fun both => blank both.2]
              rfl
            · rw [List.dropWhile_cons_of_neg blank]
              exact spells

theorem chasing_start (spells : Spells mem p line) (same : t.mem = mem) (seen : p ≤ t.seen)
    (behind : t.behind = true) : Chasing mem p p p line [] t where
  left := spells
  clean := by simp
  token i small := absurd small (Nat.not_lt_zero i)
  cursor := rfl
  le := Nat.le_refl p
  same i _ := congrFun same i
  seen := seen
  behind := behind

theorem nextTokenAt_none {rounds : Nat} (spells : Spells t.mem p line)
    (enough : line.length < rounds) (none : nextToken line = none) :
    ∃ stop t', nextTokenAt rounds p t = some ((.none, stop), t') ∧ Spells t'.mem stop [] ∧
      t'.mem = t.mem ∧ t'.behind = t.behind := by
  obtain ⟨stop, t₁, skipped, after, mem, behind, seen, found⟩ := skipBlank_run spells enough
  have blank : line.dropWhile isSpace = [] := by
    unfold nextToken at none
    split at none
    · assumption
    · cases none
  rw [blank, ← mem] at found
  refine ⟨stop, t₁.look stop, ?_, found, mem, behind⟩
  have read : Tape.load stop t₁ = some (0, t₁.look stop) := by rw [Tape.load, found.head]; rfl
  rw [nextTokenAt, Prog.bind_eq_of_run skipped, Prog.bind_eq_of_run read, if_pos rfl]
  rfl

theorem nextTokenAt_some {rounds : Nat} (spells : Spells t.mem p line)
    (enough : line.length < rounds) (fresh : t.behind = true)
    (some_ : nextToken line = some (tok, rest)) :
    ∃ start stop t', nextTokenAt rounds p t = some ((some start, stop), t') ∧
      Delivered t.mem p start stop tok rest t' := by
  obtain ⟨start, t₁, skipped, after, mem, behind, seen, found⟩ := skipBlank_run spells enough
  have small : (line.dropWhile isSpace).length < rounds :=
    Nat.lt_of_le_of_lt (List.dropWhile_sublist isSpace).length_le enough
  unfold nextToken at some_
  split at some_
  case h_1 => cases some_
  case h_2 lead =>
    obtain ⟨same_tok, same_rest⟩ := Prod.mk.inj (Option.some.inj some_)
    have nonempty : (line.dropWhile isSpace).headD 0 ≠ 0 := by
      cases begins : line.dropWhile isSpace with
      | nil => exact absurd begins lead
      | cons c rest =>
          rw [begins] at found
          exact found.2.1
    have begins : Chasing t.mem start start start (line.dropWhile isSpace) [] t₁ :=
      chasing_start found mem (Nat.le_of_lt seen) (behind.trans fresh)
    obtain ⟨t₂, read, chasing₂, ahead₂⟩ := begins.load
    obtain ⟨at₃, rest₃, t₃, looped, ⟨tok₃, chasing₃, same⟩, le₃, ends⟩ :=
      loop_scanned tokenRound_run chasing₂ small small
    obtain ⟨stop, t₄, ended, delivered, whole⟩ := endToken_run chasing₃ ends
    refine ⟨start, stop, t₄, ?_, ?_⟩
    · rw [nextTokenAt, Prog.bind_eq_of_run skipped, Prog.bind_eq_of_run read, if_neg nonempty,
        Prog.bind_eq_of_run looped, Prog.bind_eq_of_run ended]
      rfl
    · rw [← same_tok, ← same_rest, same, whole]
      exact { delivered with after }

end Token

section Line

variable {start p : Nat} {rest tok line : List UInt8} {t : Tape} {toks : List Nat}
  {strs : List (List UInt8)}

theorem scanToken_length (q : Quoting) (line out : List UInt8) :
    (scanToken q line out).2.length ≤ line.length := by
  fun_induction scanToken q line out with
  | case1 => exact Nat.le_refl _
  | case2 => exact Nat.le_succ _
  | _ => exact Nat.le_succ_of_le ‹_›

/-- A token takes a character of the line at least. -/
theorem nextToken_shorter (found : nextToken line = some (tok, rest)) :
    rest.length < line.length := by
  unfold nextToken at found
  split at found
  case h_1 => cases found
  case h_2 lead =>
    have le : (line.dropWhile isSpace).length ≤ line.length :=
      (List.dropWhile_sublist isSpace).length_le
    cases begins : line.dropWhile isSpace with
    | nil => exact absurd begins lead
    | cons c others =>
        have solid : ¬ isSpace c = true := by
          have head := List.head?_dropWhile_not isSpace line
          rw [begins] at head
          simpa using head
        have taken : (scanToken .plain (c :: others) []).2.length ≤ others.length := by
          rw [scanToken, if_neg solid]
          split
          · exact scanToken_length _ _ _
          · split <;> exact scanToken_length _ _ _
        rw [begins] at found le
        rw [Option.some.inj found] at taken
        exact Nat.lt_of_le_of_lt taken le

/-- The tokens of a line, each copied elsewhere. -/
def lineTokens (line : List UInt8) : List (List UInt8) :=
  match _found : nextToken line with
  | none => []
  | some (tok, rest) => tok :: lineTokens rest
termination_by line.length
decreasing_by exact nextToken_shorter _found

theorem lineTokens_none (none : nextToken line = none) : lineTokens line = [] := by
  rw [lineTokens]
  split
  · rfl
  · simp_all

theorem lineTokens_some (found : nextToken line = some (tok, rest)) :
    lineTokens line = tok :: lineTokens rest := by
  rw [lineTokens]
  split
  · simp_all
  · simp_all

/-- The calls that follow leave the tokens alone that have been delivered. -/
theorem tokensLoop_run {total rounds : Nat} (spells : Spells t.mem p line)
    (small : line.length < total) (enough : line.length < rounds) (behind : t.behind = true)
    (kept : List.Forall₂ (fun tok s => Spells t.mem tok s ∧ (tok + s.length < p ∨ line = []))
      toks strs) :
    ∃ toks' t', Prog.loop (tokensRound total) rounds (p, toks) t = some (toks', t') ∧
      t'.behind = true ∧ List.Forall₂ (Spells t'.mem) toks' (strs ++ lineTokens line) := by
  induction rounds generalizing p line t toks strs with
  | zero => exact absurd enough (Nat.not_lt_zero _)
  | succ rounds ih =>
      cases found : nextToken line with
      | none =>
          obtain ⟨stop, t', run, -, mem, behind'⟩ := nextTokenAt_none spells small found
          refine ⟨toks, t', Prog.loop_inr ?_, behind'.trans behind, ?_⟩
          · rw [tokensRound, Prog.bind_eq_of_run run]
            rfl
          · rw [lineTokens_none found, List.append_nil, mem]
            exact kept.imp fun _ _ both => both.1
      | some result =>
          obtain ⟨tok, rest⟩ := result
          obtain ⟨start, stop, t₁, run, delivered⟩ := nextTokenAt_some spells small behind found
          have after := delivered.after
          have short := delivered.short
          have less : rest.length < line.length := nextToken_shorter found
          have nonempty : line ≠ [] := by
            intro empty
            rw [empty] at less
            exact Nat.not_lt_zero _ less
          have step : tokensRound total (p, toks) t = some (.inl (stop, toks ++ [start]), t₁) := by
            rw [tokensRound, Prog.bind_eq_of_run run]
            rfl
          have kept' : List.Forall₂
              (fun tok s => Spells t₁.mem tok s ∧ (tok + s.length < stop ∨ rest = []))
              (toks ++ [start]) (strs ++ [tok]) := by
            apply List.rel_append
            · apply kept.imp
              rintro tok s ⟨spelled, before | empty⟩
              · constructor
                · exact spelled.frame fun i _ below => delivered.same i (.inl (by omega))
                · exact .inl (by omega)
              · exact absurd empty nonempty
            · apply List.Forall₂.cons _ .nil
              constructor
              · exact delivered.token
              · exact short.imp id And.right
          obtain ⟨toks', t', later, behind', all⟩ := ih delivered.rest
            (Nat.lt_trans less small) (by omega) delivered.behind kept'
          refine ⟨toks', t', (Prog.loop_inl step).trans later, behind', ?_⟩
          rw [lineTokens_some found, List.append_cons]
          exact all

/-- Each call delivers the token that a copy elsewhere gives, never stores beyond what it has
read, and leaves the rest of the line to the next; so the tokens of the line are the same. -/
theorem next_token_in_place {mem : Nat → UInt8} {rounds : Nat} (spells : Spells mem p line)
    (enough : line.length < rounds) :
    (match nextToken line with
      | none => ∃ stop t', nextTokenAt rounds p (.fresh mem) = some ((none, stop), t') ∧
          Spells t'.mem stop [] ∧ t'.mem = mem ∧ t'.behind = true
      | some (tok, rest) => ∃ start stop t',
          nextTokenAt rounds p (.fresh mem) = some ((some start, stop), t') ∧
            Delivered mem p start stop tok rest t') ∧
      ∃ toks t', tokensAt rounds p (.fresh mem) = some (toks, t') ∧ t'.behind = true ∧
        List.Forall₂ (Spells t'.mem) toks (lineTokens line) := by
  have spelled : Spells (Tape.fresh mem).mem p line := spells
  constructor
  · cases found : nextToken line with
    | none => exact nextTokenAt_none spelled enough found
    | some result => exact nextTokenAt_some spelled enough rfl found
  · exact tokensLoop_run spelled enough enough rfl .nil

/-- The line `"\"" x`. -/
def quoteLine : List UInt8 := [34, 92, 34, 34, 32, 120]

theorem quoteLine_in_place :
    Spells (fun i => quoteLine.getD i 0) 0 quoteLine ∧
      ∃ toks t', tokensAt 7 0 (.fresh fun i => quoteLine.getD i 0) = some (toks, t') ∧
        t'.behind = true ∧ List.Forall₂ (Spells t'.mem) toks (lineTokens quoteLine) := by
  have spells : Spells (fun i => quoteLine.getD i 0) 0 quoteLine := spells_getD (by decide)
  exact ⟨spells, (next_token_in_place spells (by decide)).2⟩

end Line

end Ncd15.Xcpm
