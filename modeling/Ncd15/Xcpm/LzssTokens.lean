import Mathlib.Tactic.IntervalCases
import Ncd15.Library.SlidingWindow
import Ncd15.Xcpm.Lzss

/-!
# The decode law of the LZSS format

The blobs that the format comment of `lzss.c` describes, as lists of tokens: what
a list of tokens expands to, how it is written down, and that the decoder turns
the second into the first.  A blob that breaks off is refused.
-/

namespace Ncd15.Xcpm

open Ncd15.Library

section Format

/-- A literal byte, or a match of `extra + 3` bytes at a window position. -/
inductive Token
  | literal (c : UInt8)
  | copy (pos : Fin windowSize) (extra : Fin 16)
  deriving DecidableEq

/-- Append `len` bytes of the window, read from position `pos + i` on; the bytes
appended come back when the match reaches them. -/
def copyOut (pos : Nat) : Nat → Nat → List UInt8 → List UInt8
  | 0, _, out => out
  | len + 1, i, out =>
      copyOut pos len (i + 1) (out ++ [slidingEntry 0 windowSize out ((pos + i) % windowSize)])

namespace Token

def length : Token → Nat
  | literal _ => 1
  | copy _ extra => extra + 3

def flag : Token → Nat
  | literal _ => 1
  | copy _ _ => 0

def bytes : Token → List UInt8
  | literal c => [c]
  | copy pos extra => [UInt8.ofNat (pos % 256), UInt8.ofNat (pos / 256 * 16 + extra)]

/-- The output after a token. -/
def expand (out : List UInt8) : Token → List UInt8
  | literal c => out ++ [c]
  | copy pos extra => copyOut pos (extra + 3) 0 out

end Token

/-- The expansion of a list of tokens over a window of zeros. -/
def expansion (tokens : List Token) : List UInt8 :=
  tokens.foldl Token.expand []

/-- The flags of the next `slots` outputs, the first one lowest; the bits of the
outputs that there are not come from `fill`. -/
def flagBits (fill : Nat) : Nat → List Token → Nat
  | 0, _ => 0
  | slots + 1, [] => fill % 2 ^ (slots + 1)
  | slots + 1, token :: rest => token.flag + 2 * flagBits fill slots rest

/-- The body of a blob, where the last flag byte has `slots` flags left. -/
def body (fill : Nat) : Nat → List Token → List UInt8
  | _, [] => []
  | 0, token :: rest =>
      UInt8.ofNat (flagBits fill 8 (token :: rest)) :: (token.bytes ++ body fill 7 rest)
  | slots + 1, token :: rest => token.bytes ++ body fill slots rest

/-- The magic and the size, the highest byte first. -/
def header (size : Nat) : List UInt8 :=
  [76, 90, 83, 83, UInt8.ofNat (size / 2 ^ 24), UInt8.ofNat (size / 2 ^ 16),
    UInt8.ofNat (size / 2 ^ 8), UInt8.ofNat size]

/-- The blob of a list of tokens. -/
def serialise (fill : Nat) (tokens : List Token) : List UInt8 :=
  header (expansion tokens).length ++ body fill 0 tokens

end Format

section Sizes

theorem Token.length_pos (token : Token) : 0 < token.length := by
  cases token <;> simp [Token.length]

theorem length_copyOut (pos len i : Nat) (out : List UInt8) :
    (copyOut pos len i out).length = out.length + len := by
  induction len generalizing i out with
  | zero => rfl
  | succ len ih =>
      rw [copyOut, ih]
      simp only [List.length_append, List.length_singleton]
      omega

theorem Token.length_expand (token : Token) (out : List UInt8) :
    (token.expand out).length = out.length + token.length := by
  cases token with
  | literal c => simp [Token.expand, Token.length]
  | copy pos extra => exact length_copyOut pos (extra + 3) 0 out

theorem length_foldl_expand (tokens : List Token) (out : List UInt8) :
    (tokens.foldl Token.expand out).length = out.length + (tokens.map Token.length).sum := by
  induction tokens generalizing out with
  | nil => rfl
  | cons token rest ih =>
      rw [List.foldl_cons, ih, token.length_expand, List.map_cons, List.sum_cons]
      omega

theorem flagBits_lt (fill slots : Nat) (tokens : List Token) :
    flagBits fill slots tokens < 2 ^ slots := by
  induction slots generalizing tokens with
  | zero => simp [flagBits]
  | succ slots ih =>
      cases tokens with
      | nil => exact Nat.mod_lt _ (Nat.two_pow_pos _)
      | cons token rest =>
          have bound := ih rest
          have flag : token.flag ≤ 1 := by cases token <;> simp [Token.flag]
          rw [flagBits, pow_succ]
          omega

theorem lzssUncompressedSize_header {size : Nat} (small : size < 2 ^ 32) (rest : List UInt8) :
    lzssUncompressedSize (header size ++ rest) = size := by
  have magic : (header size ++ rest).take 4 = [76, 90, 83, 83] := rfl
  rw [lzssUncompressedSize, if_pos magic]
  simp only [header, List.cons_append, List.nil_append, List.getD_cons_succ,
    List.getD_cons_zero, UInt8.toNat_ofNat']
  omega

end Sizes

section Decoding

/-- The decoder after it has written `out`. -/
structure Decoded (out : List UInt8) (s : LzssState) : Prop where
  output : s.output = out
  op : s.op = out.length
  wpos : s.wpos = out.length
  window : ∀ p < windowSize, s.window.get p = slidingEntry 0 windowSize out p

/-- The flags that are left in the current flag byte, with the sentinel. -/
def FlagsLeft (fill : Nat) (slots : Nat) (tokens : List Token) (s : LzssState) : Prop :=
  match slots with
  | 0 => s.flags / 0x100 % 2 = 0
  | slots + 1 =>
      slots < 8 ∧ s.flags = flagBits fill (slots + 1) tokens + 0xFF * 2 ^ (slots + 1)

variable {blob out : List UInt8} {s : LzssState} {outMax fill slots : Nat} {token : Token}
  {tokens rest : List Token}

theorem decoded_start : Decoded [] LzssState.start :=
  ⟨rfl, rfl, rfl, fun p inside => by simp [LzssState.start]⟩

theorem Decoded.emit (decoded : Decoded out s) (c : UInt8) (small : out.length + 1 < 2 ^ 32) :
    Decoded (out ++ [c]) (s.emit c) where
  output := by simp [LzssState.emit, decoded.output]
  op := by
    simp only [LzssState.emit, decoded.op, Nat.mod_eq_of_lt small, List.length_append,
      List.length_singleton]
  wpos := by
    simp only [LzssState.emit, decoded.wpos, Nat.mod_eq_of_lt small, List.length_append,
      List.length_singleton]
  window p inside := by
    have place : s.wpos % windowSize < windowSize := Nat.mod_lt _ (by decide)
    rw [slidingEntry_snoc 0 out c inside, ← decoded.wpos, ← decoded.window p inside]
    exact Buffer.get_blit_singleton s.window place

theorem Decoded.copyMatch (decoded : Decoded out s) (pos len i : Nat)
    (room : out.length + len ≤ outMax) (small : out.length + len < 2 ^ 32) :
    ∃ s', LzssState.copyMatch outMax pos len i s = .ok s' ∧
      Decoded (copyOut pos len i out) s' ∧ s'.inp = s.inp ∧ s'.flags = s.flags := by
  induction len generalizing s out i with
  | zero => exact ⟨s, rfl, decoded, rfl, rfl⟩
  | succ len ih =>
      have inside : (pos + i) % windowSize < windowSize := Nat.mod_lt _ (by decide)
      have open_ : ¬ outMax ≤ s.op := by
        rw [decoded.op]
        omega
      have one := decoded.emit (s.window.get ((pos + i) % windowSize)) (by omega)
      rw [decoded.window _ inside] at one
      obtain ⟨s', run, decoded', inp, flags⟩ := ih one (i + 1)
        (by simp only [List.length_append, List.length_singleton]; omega)
        (by simp only [List.length_append, List.length_singleton]; omega)
      refine ⟨s', ?_, decoded', inp, flags⟩
      rw [LzssState.copyMatch, if_neg open_, decoded.window _ inside]
      exact run

/-- The two bytes of a match hold its position and its length. -/
theorem copy_fields (pos extra : Nat) (near : pos < windowSize) (short : extra < 16) :
    let b1 := (UInt8.ofNat (pos % 256)).toNat
    let b2 := (UInt8.ofNat (pos / 256 * 16 + extra)).toNat
    b1 + b2 / 16 * 256 = pos ∧ b2 % 16 = extra := by
  simp only [UInt8.toNat_ofNat', windowSize] at near ⊢
  omega

theorem drop_eq_cons {inp : Nat} {byte : UInt8} {after : List UInt8}
    (ahead : blob.drop inp = byte :: after) :
    inp < blob.length ∧ blob.getD inp 0 = byte ∧ blob.drop (inp + 1) = after := by
  have inside : inp < blob.length := by
    by_contra outside
    rw [List.drop_eq_nil_of_le (by omega)] at ahead
    cases ahead
  rw [List.drop_eq_getElem_cons inside] at ahead
  obtain ⟨rfl, rfl⟩ := List.cons.inj ahead
  exact ⟨inside, by simp [inside], rfl⟩

/-- Reading a token that the blob has whole. -/
theorem Decoded.output1 (decoded : Decoded out s) {after : List UInt8}
    (flag : s.flags % 2 = token.flag) (ahead : blob.drop s.inp = token.bytes ++ after)
    (room : out.length + token.length ≤ outMax) (small : out.length + token.length < 2 ^ 32) :
    ∃ s', s.output1 blob outMax = .ok s' ∧ Decoded (token.expand out) s' ∧
      blob.drop s'.inp = after ∧ s'.flags = s.flags := by
  cases token with
  | literal c =>
      obtain ⟨inside, byte, later⟩ := drop_eq_cons ahead
      have free : ¬ (blob.length ≤ s.inp ∨ outMax ≤ s.op) := by
        rw [decoded.op]
        simp only [Token.length] at room
        omega
      have one : s.flags % 2 = 1 := flag
      refine ⟨_, ?_, Decoded.emit (s := { s with inp := s.inp + 1 })
        ⟨decoded.output, decoded.op, decoded.wpos, decoded.window⟩ c small, later, rfl⟩
      rw [LzssState.output1, if_pos one, if_neg free, byte]
  | copy pos extra =>
      obtain ⟨inside, first, next⟩ := drop_eq_cons ahead
      obtain ⟨inside', second, later⟩ := drop_eq_cons next
      obtain ⟨place, length⟩ := copy_fields pos extra pos.isLt extra.isLt
      obtain ⟨s', run, decoded', inp, flags⟩ :=
        Decoded.copyMatch (s := { s with inp := s.inp + 2 })
          ⟨decoded.output, decoded.op, decoded.wpos, decoded.window⟩ pos (extra + 3) 0 room small
      refine ⟨s', ?_, decoded', by rwa [inp], flags⟩
      have other : ¬ s.flags % 2 = 1 := by
        rw [flag]
        simp [Token.flag]
      rw [LzssState.output1, if_neg other, if_neg (by omega)]
      simp only [first, second, place, length]
      exact run

/-- Reading a token at whose start or in whose middle the blob ends. -/
theorem output1_short (flag : s.flags % 2 = token.flag)
    (short : (blob.drop s.inp).length < token.bytes.length) :
    ∃ s', s.output1 blob outMax = .error s' := by
  rw [List.length_drop] at short
  cases token with
  | literal c =>
      simp only [Token.bytes, List.length_singleton] at short
      have one : s.flags % 2 = 1 := flag
      exact ⟨s, by rw [LzssState.output1, if_pos one, if_pos (by omega)]⟩
  | copy pos extra =>
      simp only [Token.bytes, List.length_cons, List.length_nil] at short
      have other : ¬ s.flags % 2 = 1 := by
        rw [flag]
        simp [Token.flag]
      exact ⟨s, by rw [LzssState.output1, if_neg other, if_pos (by omega)]⟩

/-- The lowest flag left is the next token's; the round ends with the others. -/
theorem FlagsLeft.next {n : Nat} (small : slots < 8)
    (flags : n = flagBits fill (slots + 1) (token :: rest) + 0xFF * 2 ^ (slots + 1)) :
    n % 2 = token.flag ∧ ∀ s : LzssState, s.flags = n / 2 → FlagsLeft fill slots rest s := by
  have flag : token.flag ≤ 1 := by cases token <;> simp [Token.flag]
  rw [flagBits, pow_succ] at flags
  refine ⟨by omega, fun s half => ?_⟩
  cases slots with
  | zero =>
      simp only [FlagsLeft, half, flags, flagBits]
      omega
  | succ slots =>
      refine ⟨by omega, ?_⟩
      rw [half, flags]
      omega

theorem fetchFlags_left (left : FlagsLeft fill (slots + 1) tokens s) :
    s.fetchFlags blob = .ok s := by
  obtain ⟨small, flags⟩ := left
  have bound := flagBits_lt fill (slots + 1) tokens
  have sentinel : s.flags / 0x100 % 2 = 1 := by
    rw [flags]
    interval_cases slots <;> omega
  rw [LzssState.fetchFlags, if_neg (by omega)]

theorem fetchFlags_due {byte : UInt8} {after : List UInt8} (due : s.flags / 0x100 % 2 = 0)
    (ahead : blob.drop s.inp = byte :: after) :
    s.fetchFlags blob = .ok { s with inp := s.inp + 1, flags := byte.toNat + 0xFF00 } := by
  obtain ⟨inside, here, -⟩ := drop_eq_cons ahead
  rw [LzssState.fetchFlags, if_pos due, if_neg (by omega), here]

/-- The flag byte before a token, where one is due. -/
def lead (fill : Nat) : Nat → List Token → List UInt8
  | 0, tokens => [UInt8.ofNat (flagBits fill 8 tokens)]
  | _ + 1, _ => []

/-- The flags left after a token. -/
def slotsAfter : Nat → Nat
  | 0 => 7
  | slots + 1 => slots

theorem body_cons : body fill slots (token :: rest) =
    lead fill slots (token :: rest) ++ token.bytes ++ body fill (slotsAfter slots) rest := by
  cases slots <;> simp [body, lead, slotsAfter]

/-- After the flag byte that may be due, the lowest flag is the next token's. -/
theorem fetchFlags_run (left : FlagsLeft fill slots (token :: rest) s) {after : List UInt8}
    (ahead : blob.drop s.inp = lead fill slots (token :: rest) ++ after) :
    ∃ s₁, s.fetchFlags blob = .ok s₁ ∧ blob.drop s₁.inp = after ∧
      (∀ out, Decoded out s → Decoded out s₁) ∧ s₁.flags % 2 = token.flag ∧
      ∀ s' : LzssState, s'.flags = s₁.flags / 2 → FlagsLeft fill (slotsAfter slots) rest s' := by
  cases slots with
  | zero =>
      obtain ⟨-, -, later⟩ := drop_eq_cons ahead
      have bound := flagBits_lt fill 8 (token :: rest)
      have value : (UInt8.ofNat (flagBits fill 8 (token :: rest))).toNat + 0xFF00 =
          flagBits fill 8 (token :: rest) + 0xFF * 2 ^ 8 := by
        rw [UInt8.toNat_ofNat', Nat.mod_eq_of_lt bound]
        omega
      obtain ⟨lowest, others⟩ := FlagsLeft.next (by omega) value
      exact ⟨_, fetchFlags_due left ahead, later,
        fun out decoded => ⟨decoded.output, decoded.op, decoded.wpos, decoded.window⟩,
        lowest, others⟩
  | succ slots =>
      obtain ⟨lowest, others⟩ := FlagsLeft.next left.1 left.2
      exact ⟨s, fetchFlags_left left, ahead, fun _ decoded => decoded, lowest, others⟩

/-- A round whose token the blob has whole. -/
theorem Decoded.round (decoded : Decoded out s) (left : FlagsLeft fill slots (token :: rest) s)
    {after : List UInt8}
    (ahead : blob.drop s.inp = lead fill slots (token :: rest) ++ token.bytes ++ after)
    (room : out.length + token.length ≤ outMax) (small : out.length + token.length < 2 ^ 32) :
    ∃ s', s.round blob outMax = .ok s' ∧ Decoded (token.expand out) s' ∧
      FlagsLeft fill (slotsAfter slots) rest s' ∧ blob.drop s'.inp = after := by
  rw [List.append_assoc] at ahead
  obtain ⟨s₁, fetched, ahead₁, keeps, flag, others⟩ := fetchFlags_run left ahead
  obtain ⟨s₂, read, decoded₂, ahead₂, flags⟩ :=
    (keeps out decoded).output1 flag ahead₁ room small
  refine ⟨{ s₂ with flags := s₂.flags / 2 }, ?_,
    ⟨decoded₂.output, decoded₂.op, decoded₂.wpos, decoded₂.window⟩,
    others _ (by rw [flags]), ahead₂⟩
  rw [LzssState.round, fetched]
  show (do let s ← s₁.output1 blob outMax; _) = _
  rw [read]
  rfl

/-- A round in which the blob ends. -/
theorem round_short (left : FlagsLeft fill slots (token :: rest) s)
    (ahead : blob.drop s.inp <+: lead fill slots (token :: rest) ++ token.bytes)
    (short : (blob.drop s.inp).length <
      (lead fill slots (token :: rest) ++ token.bytes).length) :
    ∃ s', s.round blob outMax = .error s' := by
  by_cases whole : (lead fill slots (token :: rest)).length ≤ (blob.drop s.inp).length
  · obtain ⟨after, split⟩ := List.prefix_of_prefix_length_le (List.prefix_append _ _) ahead whole
    obtain ⟨s₁, fetched, ahead₁, -, flag, -⟩ := fetchFlags_run left split.symm
    rw [← split, List.length_append, List.length_append, ← ahead₁] at short
    have cut : (blob.drop s₁.inp).length < token.bytes.length := by omega
    obtain ⟨s', stops⟩ : ∃ s', s₁.output1 blob outMax = .error s' := output1_short flag cut
    refine ⟨s', ?_⟩
    rw [LzssState.round, fetched]
    show (do let s ← s₁.output1 blob outMax; _) = _
    rw [stops]
    rfl
  · cases slots with
    | succ slots => exact absurd (Nat.zero_le _) whole
    | zero =>
        simp only [lead, List.length_singleton, List.length_drop] at whole
        refine ⟨s, ?_⟩
        have due : s.flags / 0x100 % 2 = 0 := left
        have stops : s.fetchFlags blob = .error s := by
          rw [LzssState.fetchFlags, if_pos due, if_pos (by omega)]
        rw [LzssState.round, stops]
        rfl

/-- A whole blob is decoded to the expansion of its tokens. -/
theorem Decoded.decode (decoded : Decoded out s) (left : FlagsLeft fill slots tokens s)
    (ahead : blob.drop s.inp = body fill slots tokens) {expected rounds : Nat}
    (size : expected = (tokens.foldl Token.expand out).length) (room : expected ≤ outMax)
    (small : expected < 2 ^ 32) (enough : tokens.length ≤ rounds) :
    ∃ s', s.decode blob outMax expected rounds = .ok s' ∧
      Decoded (tokens.foldl Token.expand out) s' := by
  induction tokens generalizing s out slots rounds with
  | nil =>
      have filled : ¬ s.op < expected := by
        rw [size, decoded.op]
        exact Nat.lt_irrefl _
      refine ⟨s, ?_, decoded⟩
      cases rounds with
      | zero => rfl
      | succ rounds => rw [LzssState.decode, if_neg filled]
  | cons token rest ih =>
      have length := length_foldl_expand (token :: rest) out
      rw [List.map_cons, List.sum_cons, ← size] at length
      rw [body_cons] at ahead
      have fits : out.length + token.length ≤ outMax := by omega
      obtain ⟨s₁, round, decoded₁, left₁, ahead₁⟩ := decoded.round left ahead fits (by omega)
      have more : s.op < expected := by
        have := token.length_pos
        rw [decoded.op]
        omega
      cases rounds with
      | zero => cases enough
      | succ rounds =>
          obtain ⟨s', run, decoded'⟩ :=
            ih decoded₁ left₁ ahead₁ size (Nat.le_of_succ_le_succ enough)
          refine ⟨s', ?_, decoded'⟩
          rw [LzssState.decode, if_pos more, round]
          exact run

/-- A body that breaks off is refused. -/
theorem Decoded.decode_short (decoded : Decoded out s) (left : FlagsLeft fill slots tokens s)
    (ahead : blob.drop s.inp <+: body fill slots tokens)
    (short : (blob.drop s.inp).length < (body fill slots tokens).length) {expected rounds : Nat}
    (size : expected = (tokens.foldl Token.expand out).length) (room : expected ≤ outMax)
    (small : expected < 2 ^ 32) (enough : (blob.drop s.inp).length < rounds) :
    ∃ s', s.decode blob outMax expected rounds = .error s' := by
  induction tokens generalizing s out slots rounds with
  | nil => simp [body] at short
  | cons token rest ih =>
      have length := length_foldl_expand (token :: rest) out
      rw [List.map_cons, List.sum_cons, ← size] at length
      have more : s.op < expected := by
        have := token.length_pos
        rw [decoded.op]
        omega
      rw [body_cons] at ahead short
      cases rounds with
      | zero => cases enough
      | succ rounds =>
          rw [LzssState.decode, if_pos more]
          by_cases whole : (lead fill slots (token :: rest) ++ token.bytes).length ≤
              (blob.drop s.inp).length
          · obtain ⟨after, split⟩ :=
              List.prefix_of_prefix_length_le (List.prefix_append _ _) ahead whole
            have fits : out.length + token.length ≤ outMax := by omega
            obtain ⟨s₁, round, decoded₁, left₁, ahead₁⟩ :=
              decoded.round left split.symm fits (by omega)
            have bytes : 0 < token.bytes.length := by cases token <;> simp [Token.bytes]
            have parts := congrArg List.length split
            rw [List.length_append, List.length_append] at parts
            rw [List.length_append, List.length_append] at short
            rw [← split, List.prefix_append_right_inj] at ahead
            subst ahead₁
            rw [round]
            exact ih decoded₁ left₁ ahead (by omega) size (by omega)
          · obtain ⟨s', stops⟩ : ∃ s', s.round blob outMax = .error s' := round_short left
              (List.prefix_of_prefix_length_le ahead (List.prefix_append _ _) (by omega))
              (by omega)
            rw [stops]
            exact ⟨s', rfl⟩

theorem length_le_body (fill slots : Nat) (tokens : List Token) :
    tokens.length ≤ (body fill slots tokens).length := by
  induction tokens generalizing slots with
  | nil => exact Nat.zero_le _
  | cons token rest ih =>
      have bytes : 0 < token.bytes.length := by cases token <;> simp [Token.bytes]
      have later := ih (slotsAfter slots)
      rw [body_cons, List.length_append, List.length_append, List.length_cons]
      omega

end Decoding

section Law

variable (window : Window) (fill : Nat) {tokens : List Token} {outMax : Nat}
  (small : (expansion tokens).length < 2 ^ 32) (room : (expansion tokens).length ≤ outMax)

include small room

theorem lzssDecompress_whole :
    (lzssDecompress window (serialise fill tokens) outMax).count = (expansion tokens).length ∧
      (lzssDecompress window (serialise fill tokens) outMax).output = expansion tokens := by
  rw [lzssDecompress, serialise, lzssUncompressedSize_header small]
  by_cases empty : (expansion tokens).length = 0
  · rw [if_pos (.inl empty), empty]
    exact ⟨rfl, (List.length_eq_zero_iff.mp empty).symm⟩
  · have left : FlagsLeft fill 0 tokens LzssState.start := rfl
    have bytes := length_le_body fill 0 tokens
    have ahead : (serialise fill tokens).drop LzssState.start.inp = body fill 0 tokens := rfl
    obtain ⟨s', run, decoded⟩ := decoded_start.decode left ahead rfl room small
      (bytes.trans (List.length_append ▸ Nat.le_add_left _ _))
    rw [if_neg (by omega)]
    have result := congrArg LzssResult.ofRun run
    exact ⟨(congrArg LzssResult.count result).trans decoded.op,
      (congrArg LzssResult.output result).trans decoded.output⟩

theorem lzssDecompress_cut {part : List UInt8} (prefix_ : part <+: body fill 0 tokens)
    (strict : part ≠ body fill 0 tokens) :
    (lzssDecompress window (header (expansion tokens).length ++ part) outMax).count = 0 := by
  rw [lzssDecompress, lzssUncompressedSize_header small]
  split
  · rfl
  · have left : FlagsLeft fill 0 tokens LzssState.start := rfl
    have short : part.length < (body fill 0 tokens).length := by
      by_contra long
      exact strict (prefix_.eq_of_length_le (by omega))
    have enough : ((header (expansion tokens).length ++ part).drop LzssState.start.inp).length <
        (header (expansion tokens).length ++ part).length := by
      simp only [header, LzssState.start, List.length_drop, List.length_append, List.length_cons]
      omega
    have ahead : (header (expansion tokens).length ++ part).drop LzssState.start.inp <+:
        body fill 0 tokens := prefix_
    obtain ⟨s', stops⟩ := decoded_start.decode_short left ahead short rfl room small enough
    exact congrArg (LzssResult.count ∘ LzssResult.ofRun) stops

end Law

/-- The decode law: a blob is decoded to the expansion of its tokens, and no part
of it that holds the header but not the whole body is accepted. -/
theorem lzssDecompress_decodes (window : Window) (fill : Nat) (tokens : List Token)
    (small : (expansion tokens).length < 2 ^ 32) (outMax : Nat)
    (room : (expansion tokens).length ≤ outMax) :
    (lzssDecompress window (serialise fill tokens) outMax).count = (expansion tokens).length ∧
    (lzssDecompress window (serialise fill tokens) outMax).output = expansion tokens ∧
    ∀ blob, blob <+: serialise fill tokens → blob ≠ serialise fill tokens → 8 ≤ blob.length →
      (lzssDecompress window blob outMax).count = 0 := by
  obtain ⟨count, output⟩ := lzssDecompress_whole window fill small room
  refine ⟨count, output, fun blob prefix_ strict long => ?_⟩
  obtain ⟨part, rfl⟩ := List.prefix_of_prefix_length_le (List.prefix_append _ _) prefix_ long
  rw [serialise, List.prefix_append_right_inj] at prefix_
  exact lzssDecompress_cut window fill small room prefix_ fun same =>
    strict (by rw [same, serialise])

/-- A literal, and a match that runs into its own output. -/
theorem lzssDecompress_decodes_overlap :
    expansion [.literal 7, .copy 0 1] = [7, 7, 7, 7, 7] ∧
    (lzssDecompress Buffer.zero (serialise 0 [.literal 7, .copy 0 1]) 8).output =
      expansion [.literal 7, .copy 0 1] :=
  ⟨by decide +kernel, (lzssDecompress_decodes Buffer.zero 0 [.literal 7, .copy 0 1]
    (by decide +kernel) 8 (by decide +kernel)).2.1⟩

end Ncd15.Xcpm
