import Mathlib.Data.List.Basic
import Ncd15.Xcpm.LzssTokens

/-!
# Bounds of the LZSS decoders

What `lzss_decompress` reads and writes for any blob, and that the streaming decoder does
the same whenever it succeeds.
-/

namespace Ncd15.Xcpm

open Ncd15.Library

namespace LzssState

section Reads

/-- `fetchFlags` with its access to the blob. -/
def fetchFlagsAt (blob : List UInt8) (s : LzssState) : Option (Except LzssState LzssState) :=
  if s.flags / 0x100 % 2 = 0 then
    if blob.length ≤ s.inp then some (.error s)
    else do
      let byte ← blob[s.inp]?
      some (.ok { s with inp := s.inp + 1, flags := byte.toNat + 0xFF00 })
  else some (.ok s)

/-- `output1` with its accesses to the blob. -/
def output1At (blob : List UInt8) (outMax : Nat) (s : LzssState) :
    Option (Except LzssState LzssState) :=
  if s.flags % 2 = 1 then
    if blob.length ≤ s.inp ∨ outMax ≤ s.op then some (.error s)
    else do
      let c ← blob[s.inp]?
      some (.ok ({ s with inp := s.inp + 1 }.emit c))
  else if blob.length ≤ s.inp + 1 then some (.error s)
  else do
    let b1 ← blob[s.inp]?
    let b2 ← blob[s.inp + 1]?
    some (copyMatch outMax (b1.toNat + b2.toNat / 16 * 256) (b2.toNat % 16 + 3) 0
      { s with inp := s.inp + 2 })

def roundAt (blob : List UInt8) (outMax : Nat) (s : LzssState) :
    Option (Except LzssState LzssState) := do
  match ← s.fetchFlagsAt blob with
  | .error s => some (.error s)
  | .ok s =>
      match ← s.output1At blob outMax with
      | .error s => some (.error s)
      | .ok s => some (.ok { s with flags := s.flags / 2 })

def decodeAt (blob : List UInt8) (outMax expected : Nat) : Nat → LzssState →
    Option (Except LzssState LzssState)
  | 0, s => some (.ok s)
  | rounds + 1, s =>
      if s.op < expected then do
        match ← s.roundAt blob outMax with
        | .error s => some (.error s)
        | .ok s => decodeAt blob outMax expected rounds s
      else some (.ok s)

variable {blob : List UInt8} {outMax : Nat}

theorem fetchFlagsAt_eq (blob : List UInt8) (s : LzssState) :
    s.fetchFlagsAt blob = some (s.fetchFlags blob) := by
  unfold fetchFlagsAt fetchFlags
  split
  · split
    · rfl
    · rename_i inside
      simp [List.getElem?_eq_getElem (Nat.not_le.mp inside)]
  · rfl

theorem output1At_eq (blob : List UInt8) (outMax : Nat) (s : LzssState) :
    s.output1At blob outMax = some (s.output1 blob outMax) := by
  unfold output1At output1
  split
  · split
    · rfl
    · rename_i room
      have inside : s.inp < blob.length := by omega
      simp [List.getElem?_eq_getElem inside]
  · split
    · rfl
    · rename_i both
      have first : s.inp < blob.length := by omega
      have second : s.inp + 1 < blob.length := by omega
      simp [List.getElem?_eq_getElem first, List.getElem?_eq_getElem second]

theorem roundAt_eq (blob : List UInt8) (outMax : Nat) (s : LzssState) :
    s.roundAt blob outMax = some (s.round blob outMax) := by
  unfold roundAt round
  rw [fetchFlagsAt_eq]
  cases s.fetchFlags blob with
  | error s₁ => rfl
  | ok s₁ =>
      simp only [bind, Except.bind, Option.bind_some, output1At_eq]
      cases s₁.output1 blob outMax with
      | error s₂ => rfl
      | ok s₂ => rfl

/-- Every byte that a decoder asks for lies in the blob. -/
theorem decodeAt_eq (blob : List UInt8) (outMax expected rounds : Nat) (s : LzssState) :
    s.decodeAt blob outMax expected rounds = some (s.decode blob outMax expected rounds) := by
  induction rounds generalizing s with
  | zero => rfl
  | succ rounds ih =>
      unfold decodeAt decode
      split
      · rw [roundAt_eq]
        cases s.round blob outMax with
        | error s₁ => rfl
        | ok s₁ => exact ih s₁
      · rfl

end Reads

section Stream

variable {blob : List UInt8} {outMax expected rounds : Nat} {s s' : LzssState}

theorem emit_op_lt (s : LzssState) (c : UInt8) : (s.emit c).op < 2 ^ 32 :=
  Nat.mod_lt _ (by decide)

/-- The bound on the output does not matter to a copy that succeeds. -/
theorem copyMatch_unbounded {winPos len i : Nat} (small : s.op < 2 ^ 32)
    (run : copyMatch outMax winPos len i s = .ok s') :
    copyMatch (2 ^ 32) winPos len i s = .ok s' ∧ s'.op < 2 ^ 32 := by
  induction len generalizing i s with
  | zero =>
      obtain rfl := Except.ok.inj run
      exact ⟨rfl, small⟩
  | succ len ih =>
      rw [copyMatch] at run ⊢
      split at run
      · cases run
      · rw [if_neg (Nat.not_le.mpr small)]
        exact ih (emit_op_lt _ _) run

theorem fetchFlags_op (run : s.fetchFlags blob = .ok s') : s'.op = s.op := by
  unfold fetchFlags at run
  split at run
  · split at run
    · cases run
    · obtain rfl := Except.ok.inj run
      rfl
  · obtain rfl := Except.ok.inj run
    rfl

theorem output1_unbounded (small : s.op < 2 ^ 32) (run : s.output1 blob outMax = .ok s') :
    s.output1 blob (2 ^ 32) = .ok s' ∧ s'.op < 2 ^ 32 := by
  unfold output1 at run ⊢
  split at run
  · rename_i literal
    rw [if_pos literal]
    split at run
    · cases run
    · rename_i inside
      obtain rfl := Except.ok.inj run
      rw [if_neg (by omega)]
      exact ⟨rfl, emit_op_lt _ _⟩
  · rename_i copy
    rw [if_neg copy]
    split at run
    · cases run
    · rename_i inside
      rw [if_neg inside]
      exact copyMatch_unbounded small run

theorem round_unbounded (small : s.op < 2 ^ 32) (run : s.round blob outMax = .ok s') :
    s.round blob (2 ^ 32) = .ok s' ∧ s'.op < 2 ^ 32 := by
  unfold round at run ⊢
  cases fetched : s.fetchFlags blob with
  | error s₁ =>
      rw [fetched] at run
      cases run
  | ok s₁ =>
      rw [fetched] at run
      have small₁ : s₁.op < 2 ^ 32 := by rwa [fetchFlags_op fetched]
      simp only [bind, Except.bind] at run ⊢
      cases stored : s₁.output1 blob outMax with
      | error s₂ =>
          rw [stored] at run
          cases run
      | ok s₂ =>
          rw [stored] at run
          obtain rfl := Except.ok.inj run
          obtain ⟨same, small₂⟩ := output1_unbounded small₁ stored
          rw [same]
          exact ⟨rfl, small₂⟩

theorem decode_unbounded (small : s.op < 2 ^ 32)
    (run : s.decode blob outMax expected rounds = .ok s') :
    s.decode blob (2 ^ 32) expected rounds = .ok s' := by
  induction rounds generalizing s with
  | zero => exact run
  | succ rounds ih =>
      unfold decode at run ⊢
      split at run
      · rename_i more
        rw [if_pos more]
        cases ran : s.round blob outMax with
        | error s₁ =>
            rw [ran] at run
            cases run
        | ok s₁ =>
            rw [ran] at run
            obtain ⟨same, small₁⟩ := round_unbounded small ran
            rw [same]
            exact ih small₁ run
      · rename_i done
        rw [if_neg done]
        exact run

end Stream

end LzssState

/-- The streaming decoder emits what the other one writes, and leaves the same window. -/
theorem lzssDecompressStream_eq (window window' : Window) {blob : List UInt8} {outMax : Nat}
    (success : (lzssDecompress window blob outMax).count ≠ 0) :
    lzssDecompressStream window' blob = lzssDecompress window blob outMax := by
  unfold lzssDecompress lzssDecompressStream at *
  dsimp only at *
  split at success
  · exact absurd rfl success
  · rename_i accepted
    rw [if_neg accepted, if_neg (by omega)]
    cases run : LzssState.start.decode blob outMax (lzssUncompressedSize blob) blob.length with
    | error s =>
        rw [run] at success
        exact absurd rfl success
    | ok s =>
        rw [LzssState.decode_unbounded (by decide) run]

theorem lzssDecompressStream_eq_overlap :
    lzssDecompressStream Buffer.zero (serialise 0 [.literal 7, .copy 0 1]) =
      lzssDecompress Buffer.zero (serialise 0 [.literal 7, .copy 0 1]) 8 :=
  lzssDecompressStream_eq _ _ (by decide +kernel)

section Lengths

/-- The bits of a flag byte, in the order of the outputs. -/
def flagList (flag : Nat) : List Bool :=
  (List.range 8).map flag.testBit

/-- The lengths of the outputs that the bytes behind a header stand for, up to the first
one that is cut off. -/
def tokenLengths : List Bool → List UInt8 → List Nat
  | [], flag :: rest => tokenLengths (flagList flag.toNat) rest
  | true :: flags, _ :: rest => 1 :: tokenLengths flags rest
  | false :: flags, _ :: b2 :: rest => (b2.toNat % 16 + 3) :: tokenLengths flags rest
  | _, _ => []

/-- One of the outputs begins before a position and ends behind it. -/
def Crosses (size : Nat) : Nat → List Nat → Prop
  | _, [] => False
  | op, length :: rest =>
      op < size ∧ size < op + length ∨ Crosses size (op + length) rest

/-- Whether a decoder comes to its end, and how many bytes it has written then. -/
def outcome (outMax expected : Nat) : Nat → List Nat → Bool × Nat
  | op, [] => (decide (expected ≤ op), op)
  | op, length :: rest =>
      if expected ≤ op then (true, op)
      else if op + length ≤ outMax then outcome outMax expected (op + length) rest
      else (false, outMax)

theorem not_crosses {size op : Nat} (behind : size ≤ op) (lengths : List Nat) :
    ¬ Crosses size op lengths := by
  induction lengths generalizing op with
  | nil => exact id
  | cons length rest ih =>
      rintro (⟨before, -⟩ | later)
      · omega
      · exact ih (by omega) later

theorem outcome_done {outMax expected op : Nat} (done : expected ≤ op) (lengths : List Nat) :
    outcome outMax expected op lengths = (true, op) := by
  cases lengths with
  | nil => simp [outcome, done]
  | cons length rest => exact if_pos done

/-- More than the expected size is written if an output crosses it and the buffer is larger. -/
theorem outcome_le_iff {outMax expected op : Nat} (room : expected ≤ outMax)
    (before : op ≤ expected)
    (lengths : List Nat) :
    (outcome outMax expected op lengths).2 ≤ expected ↔
      outMax ≤ expected ∨ ¬ Crosses expected op lengths := by
  induction lengths generalizing op with
  | nil => simp [outcome, Crosses, before]
  | cons length rest ih =>
      rcases Nat.lt_or_ge op expected with more | done
      · rw [outcome, if_neg (Nat.not_le.mpr more), Crosses]
        split
        · rename_i fits
          rcases Nat.lt_or_ge expected (op + length) with crosses | inside
          · rw [outcome_done crosses.le]
            exact ⟨fun le => absurd le (Nat.not_le.mpr crosses), fun held => by
              rcases held with small | none
              · omega
              · exact absurd (.inl ⟨more, crosses⟩) none⟩
          · have notHere : ¬ (op < expected ∧ expected < op + length) := by omega
            rw [ih inside, or_iff_right notHere]
        · rename_i full
          constructor
          · exact .inl
          · rintro (small | none)
            · exact small
            · by_contra large
              exact none (.inl ⟨more, by omega⟩)
      · obtain rfl : op = expected := by omega
        have none := not_crosses (Nat.le_refl op) (length :: rest)
        rw [outcome_done (Nat.le_refl _)]
        simp [none]

theorem le_outcome {outMax expected op : Nat} (lengths : List Nat)
    (done : (outcome outMax expected op lengths).1 = true) :
    expected ≤ (outcome outMax expected op lengths).2 := by
  induction lengths generalizing op with
  | nil => simpa [outcome] using done
  | cons length rest ih =>
      unfold outcome at done ⊢
      split
      · assumption
      · rename_i more
        rw [if_neg more] at done
        split
        · rename_i fits
          rw [if_pos fits] at done
          exact ih done
        · rename_i full
          rw [if_neg full] at done
          cases done

/-- The flags as the decoder keeps them: the bits that are left, below a marker. -/
def flagsNat : List Bool → Nat
  | [] => 0xFF
  | b :: rest => b.toNat + 2 * flagsNat rest

theorem flagsNat_flagList : ∀ flag < 256, flagsNat (flagList flag) = flag + 0xFF00 := by
  decide +kernel

theorem flagsNat_eq (flags : List Bool) :
    ∃ v, v < 2 ^ flags.length ∧ flagsNat flags = v + 255 * 2 ^ flags.length := by
  induction flags with
  | nil => exact ⟨0, by decide, rfl⟩
  | cons b rest ih =>
      obtain ⟨v, small, same⟩ := ih
      refine ⟨b.toNat + 2 * v, ?_, ?_⟩
      · have bit := b.toNat_lt
        rw [List.length_cons, Nat.pow_succ]
        omega
      · rw [flagsNat, same, List.length_cons, Nat.pow_succ]
        omega

theorem flagsNat_marked {flags : List Bool} (some : flags ≠ []) (short : flags.length ≤ 8) :
    flagsNat flags / 0x100 % 2 = 1 := by
  obtain ⟨v, small, same⟩ := flagsNat_eq flags
  have positive := List.length_pos_iff.mpr some
  rw [same]
  generalize flags.length = n at *
  have cases : n = 1 ∨ n = 2 ∨ n = 3 ∨ n = 4 ∨ n = 5 ∨ n = 6 ∨ n = 7 ∨ n = 8 := by omega
  rcases cases with rfl | rfl | rfl | rfl | rfl | rfl | rfl | rfl <;> omega

end Lengths

section Parsing

variable {blob : List UInt8} {outMax : Nat} {s : LzssState} {bits : List Bool}

/-- A decoder with some bits of a flag byte left. -/
structure Parsing (outMax : Nat) (bits : List Bool) (s : LzssState) : Prop where
  flags : (bits = [] ∧ s.flags / 0x100 % 2 = 0) ∨ (bits ≠ [] ∧ s.flags = flagsNat bits)
  short : bits.length ≤ 8
  op : s.op = s.output.length
  room : s.op ≤ outMax

theorem copyMatch_fits (small : outMax < 2 ^ 32) (winPos : Nat) {len i : Nat}
    (op : s.op = s.output.length) (fits : s.op + len ≤ outMax) :
    ∃ s', LzssState.copyMatch outMax winPos len i s = .ok s' ∧ s'.op = s.op + len ∧
      s'.op = s'.output.length ∧ s'.inp = s.inp ∧ s'.flags = s.flags := by
  induction len generalizing i s with
  | zero => exact ⟨s, rfl, rfl, op, rfl, rfl⟩
  | succ len ih =>
      have next : (s.emit (s.window.get ((winPos + i) % windowSize))).op = s.op + 1 :=
        Nat.mod_eq_of_lt (by omega)
      have stored : (s.emit (s.window.get ((winPos + i) % windowSize))).op =
          (s.emit (s.window.get ((winPos + i) % windowSize))).output.length := by
        rw [next, op]
        simp [LzssState.emit]
      obtain ⟨s', run, op', length, inp, left⟩ := ih (i := i + 1) stored (by omega)
      rw [LzssState.copyMatch, if_neg (by omega)]
      exact ⟨s', run, by omega, length, inp, left⟩

theorem copyMatch_full (small : outMax < 2 ^ 32) {winPos len i : Nat}
    (op : s.op = s.output.length) (room : s.op ≤ outMax) (full : outMax < s.op + len) :
    ∃ s', LzssState.copyMatch outMax winPos len i s = .error s' ∧ s'.output.length = outMax := by
  induction len generalizing i s with
  | zero => omega
  | succ len ih =>
      rw [LzssState.copyMatch]
      split
      · exact ⟨s, rfl, by omega⟩
      · have next : (s.emit (s.window.get ((winPos + i) % windowSize))).op = s.op + 1 :=
          Nat.mod_eq_of_lt (by omega)
        have stored : (s.emit (s.window.get ((winPos + i) % windowSize))).op =
            (s.emit (s.window.get ((winPos + i) % windowSize))).output.length := by
          rw [next, op]
          simp [LzssState.emit]
        exact ih stored (by omega) (by omega)

/-- The flag byte is fetched if it is due, and then there is a bit left. -/
theorem Parsing.fetch (parsing : Parsing outMax bits s) (blob : List UInt8) :
    (tokenLengths bits (blob.drop s.inp) = [] ∧ s.fetchFlags blob = .error s) ∨
      ∃ b rest s₁, s.fetchFlags blob = .ok s₁ ∧ s₁.flags = flagsNat (b :: rest) ∧
        rest.length < 8 ∧ s₁.op = s.op ∧ s₁.output = s.output ∧ s.inp ≤ s₁.inp ∧
        tokenLengths (b :: rest) (blob.drop s₁.inp) = tokenLengths bits (blob.drop s.inp) := by
  rcases parsing.flags with ⟨rfl, due⟩ | ⟨some, marked⟩
  · rw [LzssState.fetchFlags, if_pos due]
    rcases Nat.lt_or_ge s.inp blob.length with inside | outside
    · right
      rw [if_neg (Nat.not_le.mpr inside), List.drop_eq_getElem_cons inside, tokenLengths]
      obtain ⟨b, rest, split⟩ : ∃ b rest, flagList blob[s.inp].toNat = b :: rest :=
        ⟨_, _, rfl⟩
      have length : (flagList blob[s.inp].toNat).length = 8 := rfl
      rw [split, List.length_cons] at length
      refine ⟨b, rest, _, rfl, ?_, by omega, rfl, rfl, Nat.le_succ _, by rw [split]⟩
      rw [← split, flagsNat_flagList _ blob[s.inp].toNat_lt, List.getD_eq_getElem _ _ inside]
    · left
      rw [if_pos outside, List.drop_eq_nil_of_le outside]
      exact ⟨rfl, rfl⟩
  · right
    have short := parsing.short
    have ahead := flagsNat_marked some short
    obtain ⟨b, rest, rfl⟩ := List.exists_cons_of_ne_nil some
    rw [LzssState.fetchFlags, if_neg (by omega)]
    exact ⟨b, rest, s, rfl, marked, short, rfl, rfl, Nat.le_refl _, rfl⟩

/-- The next bit: its bytes are missing, or it stands for a byte or for a copy. -/
theorem output1_cases (blob : List UInt8) (outMax : Nat) {b : Bool} {rest : List Bool}
    (marked : s.flags = flagsNat (b :: rest)) :
    (tokenLengths (b :: rest) (blob.drop s.inp) = [] ∧ s.output1 blob outMax = .error s) ∨
    (tokenLengths (b :: rest) (blob.drop s.inp) = 1 :: tokenLengths rest (blob.drop (s.inp + 1)) ∧
      s.inp + 1 ≤ blob.length ∧ s.output1 blob outMax = if outMax ≤ s.op then .error s
        else .ok ({ s with inp := s.inp + 1 }.emit (blob.getD s.inp 0))) ∨
    ∃ winPos length, tokenLengths (b :: rest) (blob.drop s.inp) =
        length :: tokenLengths rest (blob.drop (s.inp + 2)) ∧
      s.inp + 2 ≤ blob.length ∧ s.output1 blob outMax =
        LzssState.copyMatch outMax winPos length 0 { s with inp := s.inp + 2 } := by
  have parity : s.flags % 2 = b.toNat := by
    have bit := b.toNat_lt
    rw [marked, flagsNat]
    omega
  cases b with
  | true =>
      have literal : s.flags % 2 = 1 := parity
      rw [LzssState.output1, if_pos literal]
      rcases Nat.lt_or_ge s.inp blob.length with inside | outside
      · right
        left
        rw [List.drop_eq_getElem_cons inside, tokenLengths]
        refine ⟨rfl, inside, ?_⟩
        simp only [Nat.not_le.mpr inside, false_or]
      · left
        rw [List.drop_eq_nil_of_le outside, if_pos (.inl outside)]
        exact ⟨rfl, rfl⟩
  | false =>
      have copy : ¬ s.flags % 2 = 1 := by
        rw [parity]
        decide
      rw [LzssState.output1, if_neg copy]
      rcases Nat.lt_or_ge (s.inp + 1) blob.length with inside | outside
      · right
        right
        have first : s.inp < blob.length := by omega
        rw [if_neg (Nat.not_le.mpr inside), List.drop_eq_getElem_cons first,
          List.drop_eq_getElem_cons inside, tokenLengths, List.getD_eq_getElem _ _ inside]
        exact ⟨_, _, rfl, inside, rfl⟩
      · left
        rw [if_pos outside]
        rcases Nat.lt_or_ge s.inp blob.length with first | none
        · rw [List.drop_eq_getElem_cons first, List.drop_eq_nil_of_le outside]
          exact ⟨rfl, rfl⟩
        · rw [List.drop_eq_nil_of_le none]
          exact ⟨rfl, rfl⟩

/-- What one output does: it is written if there is room for it, else it fills the buffer. -/
theorem output1_run (blob : List UInt8) (small : outMax < 2 ^ 32) {b : Bool} {rest : List Bool}
    (marked : s.flags = flagsNat (b :: rest)) (op : s.op = s.output.length)
    (room : s.op ≤ outMax) :
    match tokenLengths (b :: rest) (blob.drop s.inp) with
    | [] => s.output1 blob outMax = .error s
    | length :: lengths =>
        if s.op + length ≤ outMax then
          ∃ s', s.output1 blob outMax = .ok s' ∧ s'.op = s.op + length ∧
            s'.op = s'.output.length ∧ s.inp < s'.inp ∧ s'.inp ≤ blob.length ∧ s'.flags = s.flags ∧
            tokenLengths rest (blob.drop s'.inp) = lengths
        else ∃ s', s.output1 blob outMax = .error s' ∧ s'.output.length = outMax := by
  rcases output1_cases blob outMax marked with
    ⟨next, run⟩ | ⟨next, within, run⟩ | ⟨winPos, length, next, within, run⟩
  · rw [next]
    exact run
  · rw [next, run]
    dsimp only
    split
    · rename_i fits
      have step : ({ s with inp := s.inp + 1 }.emit (blob.getD s.inp 0)).op = s.op + 1 :=
        Nat.mod_eq_of_lt (Nat.lt_of_le_of_lt fits small)
      rw [if_neg (by omega)]
      refine ⟨_, rfl, step, ?_, Nat.lt_succ_self _, within, rfl, rfl⟩
      rw [step, op]
      simp [LzssState.emit]
    · rw [if_pos (by omega)]
      exact ⟨s, rfl, by omega⟩
  · rw [next, run]
    dsimp only
    split
    · rename_i fits
      obtain ⟨s', copied, op', written, inp, left⟩ :=
        copyMatch_fits (s := { s with inp := s.inp + 2 }) (i := 0) small winPos op fits
      dsimp only at inp
      exact ⟨s', copied, op', written, by omega, by omega, left, by rw [inp]⟩
    · rename_i full
      exact copyMatch_full (s := { s with inp := s.inp + 2 }) small op room (Nat.not_le.mp full)

theorem Parsing.round (small : outMax < 2 ^ 32) (parsing : Parsing outMax bits s)
    (blob : List UInt8) :
    match tokenLengths bits (blob.drop s.inp) with
    | [] => ∃ s', s.round blob outMax = .error s' ∧ s'.output.length = s.op
    | length :: lengths =>
        if s.op + length ≤ outMax then
          ∃ bits' s', s.round blob outMax = .ok s' ∧ Parsing outMax bits' s' ∧
            s'.op = s.op + length ∧ s.inp < s'.inp ∧ s'.inp ≤ blob.length ∧
            tokenLengths bits' (blob.drop s'.inp) = lengths
        else ∃ s', s.round blob outMax = .error s' ∧ s'.output.length = outMax := by
  rcases parsing.fetch blob with
    ⟨none, fetched⟩ | ⟨b, rest, s₁, fetched, marked, short, op, output, inp, same⟩
  · rw [none]
    exact ⟨s, by rw [LzssState.round, fetched]; rfl, parsing.op.symm⟩
  have op₁ : s₁.op = s₁.output.length := by rw [op, output, parsing.op]
  have run := output1_run blob small marked op₁ (op ▸ parsing.room)
  rw [same, op] at run
  have round : s.round blob outMax = (do
      let s₂ ← s₁.output1 blob outMax
      return { s₂ with flags := s₂.flags / 2 }) := by
    rw [LzssState.round, fetched]
    rfl
  split at run
  · exact ⟨s₁, by rw [round, run]; rfl, by rw [← op₁, op]⟩
  · split at run
    · rename_i fits
      obtain ⟨s₂, stored, op₂, length₂, inp₂, within₂, left, rest₂⟩ := run
      rw [if_pos fits]
      refine ⟨rest, { s₂ with flags := s₂.flags / 2 }, by rw [round, stored]; rfl,
        ⟨?_, by omega, length₂, by dsimp only; omega⟩, op₂, by dsimp only; omega, within₂, rest₂⟩
      have half : s₂.flags / 2 = flagsNat rest := by
        have bit := b.toNat_lt
        rw [left, marked, flagsNat]
        omega
      by_cases empty : rest = []
      · left
        exact ⟨empty, by dsimp only; rw [half, empty]; rfl⟩
      · right
        exact ⟨empty, half⟩
    · rename_i full
      obtain ⟨s₂, stored, length₂⟩ := run
      rw [if_neg full]
      exact ⟨s₂, by rw [round, stored]; rfl, length₂⟩

/-- The whole loop, in terms of the lengths of the outputs. -/
theorem Parsing.decode (small : outMax < 2 ^ 32) (parsing : Parsing outMax bits s)
    (expected : Nat) {rounds : Nat} (within : s.inp ≤ blob.length)
    (enough : blob.length < s.inp + rounds) :
    match s.decode blob outMax expected rounds with
    | .ok s' => outcome outMax expected s.op (tokenLengths bits (blob.drop s.inp)) =
        (true, s'.output.length) ∧ s'.op = s'.output.length
    | .error s' => (outcome outMax expected s.op (tokenLengths bits (blob.drop s.inp))).2 =
        s'.output.length := by
  induction rounds generalizing s bits with
  | zero => omega
  | succ rounds ih =>
      rw [LzssState.decode]
      rcases Nat.lt_or_ge s.op expected with more | done
      · rw [if_pos more]
        have round := parsing.round small blob
        revert round
        cases tokenLengths bits (blob.drop s.inp) with
        | nil =>
            rintro ⟨s', run, length⟩
            rw [run]
            exact length.symm
        | cons length lengths =>
            dsimp only
            rw [outcome, if_neg (Nat.not_le.mpr more)]
            split
            · rintro ⟨bits', s', run, parsing', op', inp', within', next⟩
              have rest := ih parsing' within' (by omega)
              rw [op', next] at rest
              rw [run]
              exact rest
            · rintro ⟨s', run, full⟩
              rw [run]
              exact full.symm
      · rw [if_neg (Nat.not_lt.mpr done), outcome_done done]
        exact ⟨by rw [parsing.op], parsing.op⟩

end Parsing

section Law

/-- `lzss_uncompressed_size` with its accesses to the blob. -/
def lzssUncompressedSizeAt (blob : List UInt8) : Option Nat := do
  if (← blob[0]?) ≠ 76 then return 0
  if (← blob[1]?) ≠ 90 then return 0
  if (← blob[2]?) ≠ 83 then return 0
  if (← blob[3]?) ≠ 83 then return 0
  return (← blob[4]?).toNat * 2 ^ 24 + (← blob[5]?).toNat * 2 ^ 16 +
    (← blob[6]?).toNat * 2 ^ 8 + (← blob[7]?).toNat

/-- `lzss_decompress`, without a result if it reads outside of the blob. -/
def lzssDecompressAt (window : Window) (blob : List UInt8) (outMax : Nat) : Option LzssResult := do
  let expected ← lzssUncompressedSizeAt blob
  if expected = 0 ∨ outMax < expected then
    return { count := 0, output := [], window := window }
  return .ofRun (← LzssState.start.decodeAt blob outMax expected blob.length)

/-- All reads are in the blob, all writes below the size in its header, and the result is
0 or that size. -/
def LzssBounded (window : Window) (blob : List UInt8) (outMax : Nat) : Prop :=
  lzssDecompressAt window blob outMax = some (lzssDecompress window blob outMax) ∧
  (lzssDecompress window blob outMax).output.length ≤ lzssUncompressedSize blob ∧
  ((lzssDecompress window blob outMax).count = 0 ∨
    (lzssDecompress window blob outMax).count = lzssUncompressedSize blob)

variable {blob : List UInt8} {outMax : Nat}

theorem lzssUncompressedSizeAt_eq (enough : 8 ≤ blob.length) :
    lzssUncompressedSizeAt blob = some (lzssUncompressedSize blob) := by
  obtain ⟨b0, b1, b2, b3, b4, b5, b6, b7, rest, rfl⟩ : ∃ b0 b1 b2 b3 b4 b5 b6 b7 rest,
      blob = b0 :: b1 :: b2 :: b3 :: b4 :: b5 :: b6 :: b7 :: rest := by
    match blob, enough with
    | b0 :: b1 :: b2 :: b3 :: b4 :: b5 :: b6 :: b7 :: rest, _ =>
        exact ⟨b0, b1, b2, b3, b4, b5, b6, b7, rest, rfl⟩
  by_cases magic : b0 = 76 ∧ b1 = 90 ∧ b2 = 83 ∧ b3 = 83
  · obtain ⟨rfl, rfl, rfl, rfl⟩ := magic
    rfl
  · have none : lzssUncompressedSize (b0 :: b1 :: b2 :: b3 :: b4 :: b5 :: b6 :: b7 :: rest) = 0 := by
      rw [lzssUncompressedSize, if_neg]
      simpa using magic
    rw [none]
    by_cases h0 : b0 = 76
    · by_cases h1 : b1 = 90
      · by_cases h2 : b2 = 83
        · have h3 : b3 ≠ 83 := fun h3 => magic ⟨h0, h1, h2, h3⟩
          simp [lzssUncompressedSizeAt, h0, h1, h2, h3]
        · simp [lzssUncompressedSizeAt, h0, h1, h2]
      · simp [lzssUncompressedSizeAt, h0, h1]
    · simp [lzssUncompressedSizeAt, h0]

theorem lzssDecompressAt_eq (window : Window) (enough : 8 ≤ blob.length) (outMax : Nat) :
    lzssDecompressAt window blob outMax = some (lzssDecompress window blob outMax) := by
  unfold lzssDecompressAt lzssDecompress
  rw [lzssUncompressedSizeAt_eq enough]
  dsimp only [bind, Option.bind_some]
  split
  · rfl
  · rw [LzssState.decodeAt_eq]
    rfl

theorem parsing_start (outMax : Nat) : Parsing outMax [] LzssState.start :=
  ⟨.inl ⟨rfl, rfl⟩, Nat.zero_le _, rfl, Nat.zero_le _⟩

/-- The declared size bounds the output, unless a match begins before it and ends behind it
in a buffer that is larger. -/
theorem lzssBounded_iff (window : Window) (enough : 8 ≤ blob.length) (small : outMax < 2 ^ 32) :
    LzssBounded window blob outMax ↔
      outMax ≤ lzssUncompressedSize blob ∨
        ¬ Crosses (lzssUncompressedSize blob) 0 (tokenLengths [] (blob.drop 8)) := by
  rw [LzssBounded, and_iff_right (lzssDecompressAt_eq window enough outMax)]
  by_cases accepted : lzssUncompressedSize blob = 0 ∨ outMax < lzssUncompressedSize blob
  · have rejected : lzssDecompress window blob outMax =
        { count := 0, output := [], window := window } := by
      rw [lzssDecompress]
      exact if_pos accepted
    rw [rejected]
    refine iff_of_true ⟨Nat.zero_le _, .inl rfl⟩ ?_
    rcases accepted with empty | large
    · right
      exact not_crosses (Nat.le_of_eq empty) _
    · left
      exact large.le
  have consumed : blob.length < LzssState.start.inp + blob.length :=
    Nat.lt_add_of_pos_left (by decide)
  have run := (parsing_start outMax).decode small (lzssUncompressedSize blob) enough consumed
  have ran : lzssDecompress window blob outMax = .ofRun (LzssState.start.decode blob outMax
      (lzssUncompressedSize blob) blob.length) := by
    rw [lzssDecompress]
    exact if_neg accepted
  rw [ran, ← outcome_le_iff (by omega) (Nat.zero_le _)]
  revert run
  cases LzssState.start.decode blob outMax (lzssUncompressedSize blob) blob.length with
  | error s =>
      intro written
      change s.output.length ≤ _ ∧ _ ↔ _
      rw [← written]
      exact and_iff_left (.inl rfl)
  | ok s =>
      rintro ⟨written, op⟩
      have least : lzssUncompressedSize blob ≤ (outcome outMax (lzssUncompressedSize blob) 0
          (tokenLengths [] (blob.drop 8))).2 := le_outcome _ (congrArg Prod.fst written)
      change s.output.length ≤ _ ∧ (s.op = 0 ∨ s.op = _) ↔ _
      rw [op]
      have length : (outcome outMax (lzssUncompressedSize blob) 0
        (tokenLengths [] (blob.drop 8))).2 = s.output.length := congrArg Prod.snd written
      rw [length] at least ⊢
      exact and_iff_left_of_imp fun most => .inr (Nat.le_antisymm most least)

/-- A literal, and a match that ends at the declared size. -/
theorem lzssBounded_iff_overlap :
    LzssBounded Buffer.zero (serialise 0 [.literal 7, .copy 0 1]) 4096 := by
  refine (lzssBounded_iff _ (by decide) (by decide)).mpr (.inr ?_)
  have lengths : tokenLengths [] ((serialise 0 [.literal 7, .copy 0 1]).drop 8) = [1, 4] := by
    decide +kernel
  have size : lzssUncompressedSize (serialise 0 [.literal 7, .copy 0 1]) = 5 := by
    decide +kernel
  rw [lengths, size]
  simp [Crosses]

/-- A match of three bytes in a blob that declares one. -/
theorem match_overruns_size :
    ¬ LzssBounded Buffer.zero [76, 90, 83, 83, 0, 0, 0, 1, 0, 0, 0] 4096 := by
  rintro ⟨-, -, none | same⟩
  · exact absurd none (by decide +kernel)
  · exact absurd same (by decide +kernel)

end Law

end Ncd15.Xcpm
