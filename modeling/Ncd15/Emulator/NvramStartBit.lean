import Ncd15.Emulator.NvramCommands

/-!
# The start bit of the EEPROM

`nvram_sk_rise` drops the zeros before a start bit, but at the 24th clock it executes
whatever it has shifted in.
-/

namespace Ncd15.Emulator

open Ncd15.Library

section Clocks

/-- Writes to the output port that select the chip with `SK` low and then clock bits into
it: the levels of `DI` before each rise of `SK`. -/
inductive Clocks (bits : List Bool) : List Word → Prop
  | mk (first : Word) (rest : List Word) (raised : pinCs first) (low : ¬ pinSk first)
      (held : ∀ value ∈ rest, pinCs value) (clocked : risingBits first rest = bits) :
      Clocks bits (first :: rest)

/-- The chip after writes to its pins. -/
def Nvram.ports (n : Nvram) (writes : List Word) : Nvram :=
  writes.foldl Nvram.port n

/-- The chip with other levels of its pins. -/
def Nvram.pinned (n : Nvram) (value : Word) : Nvram :=
  { n with cs := pinCs value, sk := pinSk value, di := pinDi value }

theorem Nvram.port_begin {n : Nvram} {value : Word} (idle : n.cs = false) (raised : pinCs value)
    (low : ¬ pinSk value) : n.port value = n.beginCmd.pinned value := by
  rw [Nvram.port_eq]
  simp [raised, low, idle, Nvram.pinned]

theorem Nvram.port_selected {n : Nvram} {previous value : Word} (held : n.Held previous)
    (selected : pinCs previous) (still : pinCs value) :
    n.port value =
      (if pinSk value ∧ ¬ pinSk previous then n.skRise else n).pinned value := by
  have cs : n.cs = true := held.cs.trans selected
  rw [Nvram.port_eq]
  cases up : pinSk value <;> cases before : pinSk previous <;>
    simp [still, cs, up, before, held.sk, Nvram.pinned]

variable {P : Nat → Nvram → Prop} {bits : List Bool}

/-- What the levels of the pins do not touch and a clock carries to the next bit holds
after all of them. -/
theorem Nvram.ports_clock (pinned : ∀ k n value, P k n → P k (n.pinned value))
    (clock : ∀ k n, P k n → n.cs = true → bits[k]? = some n.di → P (k + 1) n.skRise)
    {rest : List Word} {k : Nat} {n : Nvram} {previous : Word} (begun : P k n)
    (held : n.Held previous) (selected : pinCs previous) (still : ∀ value ∈ rest, pinCs value)
    (agree : ∀ i b, (risingBits previous rest)[i]? = some b → bits[k + i]? = some b) :
    P (k + (risingBits previous rest).length) (n.ports rest) := by
  induction rest generalizing k n previous with
  | nil => exact begun
  | cons value rest ih =>
      have here := still value (by simp)
      have held₁ := n.port_held value
      have later : ∀ v ∈ rest, pinCs v := fun v mem => still v (by simp [mem])
      have port := Nvram.port_selected held selected here
      rw [risingBits] at agree ⊢
      by_cases rises : pinSk value ∧ ¬ pinSk previous
      · rw [if_pos rises] at agree port ⊢
        have bit : bits[k]? = some n.di := by
          rw [held.di]
          exact agree 0 _ rfl
        have moved : P (k + 1) (n.port value) := by
          rw [port]
          exact pinned _ _ _ (clock k n begun (held.cs.trans selected) bit)
        have done := ih moved held₁ here later fun i b found => by
          rw [Nat.add_right_comm]
          exact agree (i + 1) b found
        rwa [Nat.add_right_comm] at done
      · rw [if_neg rises] at agree port ⊢
        have moved : P k (n.port value) := by
          rw [port]
          exact pinned _ _ _ begun
        exact ih moved held₁ here later agree

theorem Clocks.run {writes : List Word} (clocks : Clocks bits writes) {n : Nvram}
    (idle : n.cs = false) (pinned : ∀ k n value, P k n → P k (n.pinned value))
    (clock : ∀ k n, P k n → n.cs = true → bits[k]? = some n.di → P (k + 1) n.skRise)
    (begun : P 0 n.beginCmd) : P bits.length (n.ports writes) := by
  obtain ⟨first, rest, raised, low, held, clocked⟩ := clocks
  have start : P 0 (n.port first) := by
    rw [Nvram.port_begin idle raised low]
    exact pinned _ _ _ begun
  have done := Nvram.ports_clock pinned clock start (n.port_held first) raised held
    fun i b found => by
    rwa [Nat.zero_add, ← clocked]
  rwa [Nat.zero_add, clocked] at done

end Clocks

section StartBit

/-- A start bit, an opcode and an address. -/
def commandBits (op : BitVec 2) (a : BitVec 6) : List Bool :=
  Command.msbFirst (1#1 ++ (op ++ a))

/-- The chip in which a command has just been executed, or has begun to read a word out or
to take one in. -/
structure Nvram.Ran (n : Nvram) (op : BitVec 2) (a : BitVec 6) (n' : Nvram) : Prop where
  mem : n'.mem = ({ n with addr := a.toNat }.dispatch op.toNat).mem
  ewen : n'.ewen = ({ n with addr := a.toNat }.dispatch op.toNat).ewen
  state : n'.state = ({ n with addr := a.toNat }.dispatch op.toNat).state
  addr : n'.addr = a.toNat
  reading : n'.state = .readOut →
    n'.txShift = ({ n with addr := a.toNat }.dispatch op.toNat).txShift ∧ n'.txCount = 1#32
  writing : n'.state = .writeIn → n'.rxShift = 0#32 ∧ n'.rxCount = 0

/-- Zeros change nothing, and neither do they change the command behind them. -/
def StartBitLaw (n : Nvram) (zeros : Nat) : Prop :=
  (∀ writes, Clocks (List.replicate zeros false) writes → (n.ports writes).eeprom = n.eeprom) ∧
  ∀ op a writes, Clocks (List.replicate zeros false ++ commandBits op a) writes →
    n.Ran op a (n.ports writes)

/-- A selected chip that has been clocked with zeros and the first bits of a command. -/
structure Receiving (n₀ : Nvram) (zeros : Nat) (header : BitVec 9) (k : Nat) (n : Nvram) :
    Prop where
  state : n.state = .cmd
  count : n.rxCount = k
  shifted : n.rxShift = (header >>> (9 - (k - zeros))).setWidth 32
  mem : n.mem = n₀.mem
  ewen : n.ewen = n₀.ewen

variable {n₀ n : Nvram} {zeros k : Nat} {header : BitVec 9}

theorem Receiving.pinned (receiving : Receiving n₀ zeros header k n) (value : Word) :
    Receiving n₀ zeros header k (n.pinned value) :=
  ⟨receiving.state, receiving.count, receiving.shifted, receiving.mem, receiving.ewen⟩

theorem receiving_beginCmd (n₀ : Nvram) (zeros : Nat) (header : BitVec 9) :
    Receiving n₀ zeros header 0 n₀.beginCmd := by
  refine ⟨rfl, rfl, ?_, rfl, rfl⟩
  have empty : header >>> (9 - (0 - zeros)) = 0#9 := by
    rw [Nat.zero_sub]
    ext
    simp
  rw [empty]
  rfl

/-- The bits at the head of zeros and a command. -/
theorem shiftIn_bit (receiving : Receiving n₀ zeros header k n)
    (bit : (List.replicate zeros false ++ Command.msbFirst header)[k]? = some n.di) :
    n.shiftIn.rxShift = (header >>> (9 - (k + 1 - zeros))).setWidth 32 := by
  have shifted := receiving.shifted
  rcases Nat.lt_or_ge k zeros with before | behind
  · have zero : n.di = false := by
      rw [List.getElem?_append_left (by simpa using before),
        List.getElem?_replicate_of_lt before] at bit
      exact (Option.some.inj bit).symm
    have none : k - zeros = 0 := by omega
    have none' : k + 1 - zeros = 0 := by omega
    rw [none] at shifted
    rw [none']
    have empty : header >>> 9 = 0#9 := by
      ext
      simp
    simp [Nvram.shiftIn, shifted, zero, empty]
  · rw [List.getElem?_append_right (by simpa using behind), List.length_replicate,
      Command.msbFirst, List.getElem?_map, Option.map_eq_some_iff] at bit
    obtain ⟨i, found, bit⟩ := bit
    obtain ⟨short, rfl⟩ := List.getElem?_eq_some_iff.mp found
    rw [List.length_range] at short
    rw [List.getElem_range] at bit
    have next : k + 1 - zeros = k - zeros + 1 := by omega
    rw [next, ← shiftIn_msb header short, bit, ← shifted]
    rfl

/-- A clock before the command is complete, or before the 24th. -/
theorem Receiving.clock (receiving : Receiving n₀ zeros header k n) (selected : n.cs = true)
    (bit : (List.replicate zeros false ++ Command.msbFirst header)[k]? = some n.di)
    (partial_ : k + 1 < zeros + 9) (early : k + 1 < 24) :
    Receiving n₀ zeros header (k + 1) n.skRise := by
  have shifted := shiftIn_bit receiving bit
  have clear : n.shiftIn.rxShift.getLsbD 8 = false := by
    rw [shifted, BitVec.getLsbD_setWidth, BitVec.getLsbD_ushiftRight,
      BitVec.getLsbD_of_ge _ _ (by omega), Bool.and_false]
  have count : n.shiftIn.rxCount = k + 1 := congrArg (· + 1) receiving.count
  have waits : n.riseCmd = n.shiftIn := by
    unfold Nvram.riseCmd
    simp only [count, clear, early, Bool.not_false, decide_true, Bool.and_self, if_true, ite_self]
  have state : n.shiftIn.state = .cmd := receiving.state
  rw [Nvram.skRise_of_cmd selected receiving.state, waits, state, if_neg (by decide)]
  exact ⟨state, count, shifted, receiving.mem, receiving.ewen⟩

/-- What the `switch` does does not depend on the shift registers and their counts. -/
theorem dispatch_fields (n n' : Nvram) (mem : n'.mem = n.mem) (ewen : n'.ewen = n.ewen)
    (addr : n'.addr = n.addr) (op : BitVec 2) :
    (n'.dispatch op.toNat).mem = (n.dispatch op.toNat).mem ∧
      (n'.dispatch op.toNat).ewen = (n.dispatch op.toNat).ewen ∧
      (n'.dispatch op.toNat).state = (n.dispatch op.toNat).state ∧
      (n'.dispatch op.toNat).addr = n.addr ∧
      ((n'.dispatch op.toNat).state = .readOut →
        (n'.dispatch op.toNat).txShift = (n.dispatch op.toNat).txShift ∧
          (n'.dispatch op.toNat).txCount = 0#32) ∧
      ((n'.dispatch op.toNat).state = .writeIn →
        (n'.dispatch op.toNat).rxShift = 0#32 ∧ (n'.dispatch op.toNat).rxCount = 0) := by
  have small := op.isLt
  rcases (by omega : op.toNat = 0 ∨ op.toNat = 1 ∨ op.toNat = 2 ∨ op.toNat = 3) with
    sub | write | read | erase
  · simp only [Nvram.dispatch, sub, mem, ewen, addr]
    split <;> simp
  · simp [Nvram.dispatch, write, mem, ewen, addr]
  · simp [Nvram.dispatch, read, mem, ewen, addr]
  · simp [Nvram.dispatch, erase, mem, ewen, addr]

/-- The clock that completes the command. -/
theorem Receiving.ran {op : BitVec 2} {a : BitVec 6}
    (receiving : Receiving n₀ zeros (1#1 ++ (op ++ a)) (zeros + 8) n) (selected : n.cs = true)
    (bit : (List.replicate zeros false ++ commandBits op a)[zeros + 8]? = some n.di) :
    n₀.Ran op a n.skRise := by
  have shifted := shiftIn_bit receiving bit
  have whole : zeros + 8 + 1 - zeros = 9 := by omega
  rw [whole, Nat.sub_self, BitVec.ushiftRight_zero] at shifted
  have enough : 8 ≤ n.rxCount := by
    rw [receiving.count]
    omega
  obtain ⟨mem, ewen, state, addr, reading, writing⟩ := dispatch_fields
    { n₀ with addr := a.toNat } { n.shiftIn with addr := a.toNat }
    receiving.mem receiving.ewen rfl op
  rw [Nvram.skRise_of_cmd selected receiving.state, Nvram.riseCmd_full enough shifted]
  split
  next reads =>
    obtain ⟨word, count⟩ := reading reads
    refine ⟨mem, ewen, state, addr, fun _ => ⟨word, ?_⟩, writing⟩
    change _ + 1#32 = 1#32
    rw [count]
    rfl
  next other =>
    exact ⟨mem, ewen, state, addr, fun reads => absurd reads other, writing⟩

theorem Nvram.Ran.pinned {op : BitVec 2} {a : BitVec 6} (ran : n₀.Ran op a n) (value : Word) :
    n₀.Ran op a (n.pinned value) :=
  ⟨ran.mem, ran.ewen, ran.state, ran.addr, ran.reading, ran.writing⟩

theorem eeprom_zeros (idle : n.cs = false) (few : zeros < 24) {writes : List Word}
    (clocks : Clocks (List.replicate zeros false) writes) :
    (n.ports writes).eeprom = n.eeprom := by
  have received := clocks.run (P := fun k n' => k ≤ zeros → Receiving n zeros 0#9 k n') idle
    (fun k n' value receiving within => (receiving within).pinned value)
    (fun k n' receiving selected bit within => by
      apply (receiving (by omega)).clock selected ?_ (by omega) (by omega)
      rwa [List.getElem?_append_left (by simpa using Nat.lt_of_succ_le within)])
    (fun _ => receiving_beginCmd n zeros 0#9)
  rw [List.length_replicate] at received
  obtain ⟨-, -, -, mem, ewen⟩ := received (Nat.le_refl _)
  rw [Nvram.eeprom, Nvram.eeprom, mem, ewen]

theorem ran_behind_zeros (idle : n.cs = false) (few : zeros ≤ 15) {op : BitVec 2} {a : BitVec 6}
    {writes : List Word} (clocks : Clocks (List.replicate zeros false ++ commandBits op a) writes) :
    n.Ran op a (n.ports writes) := by
  have length : (List.replicate zeros false ++ commandBits op a).length = zeros + 9 := by
    simp [commandBits, Command.msbFirst]
  have ran := clocks.run (P := fun k n' =>
      if k < zeros + 9 then Receiving n zeros (1#1 ++ (op ++ a)) k n' else n.Ran op a n') idle
    (fun k n' value holds => by
      split at holds
      next short => exact (if_pos short).mpr (holds.pinned value)
      next whole => exact (if_neg whole).mpr (holds.pinned value))
    (fun k n' holds selected bit => by
      have inside := (List.getElem?_eq_some_iff.mp bit).1
      rw [length] at inside
      rw [if_pos inside] at holds
      by_cases more : k + 1 < zeros + 9
      · rw [if_pos more]
        exact holds.clock selected bit more (by omega)
      · obtain rfl : k = zeros + 8 := by omega
        rw [if_neg more]
        exact holds.ran selected bit)
    (by
      rw [if_pos (by omega)]
      exact receiving_beginCmd n zeros _)
  rw [length, if_neg (by omega)] at ran
  exact ran

/-- Neither in the middle of a command nor reading out. -/
def Nvram.Deaf (n : Nvram) : Prop := n.state = .idle ∨ n.state = .writeIn

theorem Nvram.Deaf.clock (deaf : n.Deaf) : n.skRise.Deaf := by
  unfold Nvram.skRise
  split
  · rcases deaf with idle | writes
    · simp [idle, Nvram.Deaf]
    · simp only [writes, Nvram.riseWriteIn]
      have state : n.shiftIn.state = .writeIn := writes
      split <;> simp [Nvram.Deaf, state]
  · exact deaf

theorem dispatch_deaf {op : Nat} (small : op < 4) (other : op ≠ 2) : (n.dispatch op).Deaf := by
  rcases (by omega : op = 0 ∨ op = 1 ∨ op = 3) with rfl | rfl | rfl
  · simp only [Nvram.dispatch]
    split <;> exact .inl rfl
  · exact .inr rfl
  · exact .inl rfl

/-- A command to read that is cut off looks like another one. -/
theorem cut_read : ∀ got ≤ 8,
    (((1#1 ++ (2#2 ++ 0#6)) >>> (9 - got)).setWidth 32 &&& 0xFF#32).toNat >>> 6 &&& 3 < 4 ∧
      (((1#1 ++ (2#2 ++ 0#6)) >>> (9 - got)).setWidth 32 &&& 0xFF#32).toNat >>> 6 &&& 3 ≠ 2 := by
  decide

/-- The 24th clock executes what is there of the command. -/
theorem Receiving.cut (receiving : Receiving n₀ zeros (1#1 ++ (2#2 ++ 0#6)) 23 n)
    (many : 16 ≤ zeros) (selected : n.cs = true)
    (bit : (List.replicate zeros false ++ commandBits 2#2 0#6)[23]? = some n.di) :
    n.skRise.Deaf := by
  have shifted := shiftIn_bit receiving bit
  obtain ⟨small, other⟩ := cut_read (23 + 1 - zeros) (by omega)
  have count : n.shiftIn.rxCount = 24 := congrArg (· + 1) receiving.count
  rw [← shifted] at small other
  have deaf : n.riseCmd.Deaf := by
    unfold Nvram.riseCmd
    simp only [count, Nat.lt_irrefl, decide_false, Bool.and_false, Bool.false_eq_true, if_false]
    rw [if_neg (by omega)]
    exact dispatch_deaf small other
  rw [Nvram.skRise_of_cmd selected receiving.state, if_neg]
  · exact deaf
  · rcases deaf with idle | writes
    · simp [idle]
    · simp [writes]

theorem deaf_behind_zeros (idle : n.cs = false) (many : 16 ≤ zeros) {writes : List Word}
    (clocks : Clocks (List.replicate zeros false ++ commandBits 2#2 0#6) writes) :
    (n.ports writes).Deaf := by
  have length : (List.replicate zeros false ++ commandBits 2#2 0#6).length = zeros + 9 := by
    simp [commandBits, Command.msbFirst]
  have deaf := clocks.run (P := fun k n' =>
      if k < 24 then Receiving n zeros (1#1 ++ (2#2 ++ 0#6)) k n' else n'.Deaf) idle
    (fun k n' value holds => by
      split at holds
      next short => exact (if_pos short).mpr (holds.pinned value)
      next whole => exact (if_neg whole).mpr holds)
    (fun k n' holds selected bit => by
      split at holds
      next before =>
        by_cases more : k + 1 < 24
        · rw [if_pos more]
          exact holds.clock selected bit (by omega) more
        · obtain rfl : k = 23 := by omega
          rw [if_neg more]
          exact holds.cut many selected bit
      next behind =>
        rw [if_neg (by omega)]
        exact holds.clock)
    (by
      rw [if_pos (by omega)]
      exact receiving_beginCmd n zeros _)
  rw [length, if_neg (by omega)] at deaf
  exact deaf

theorem clocks_clockIn (bits : List Bool) : Clocks bits (clockIn bits) :=
  .mk _ _ rfl (by decide) (pinCs_clockBit bits) (risingBits_clockBit _ bits)

/-- The receiver waits for the start bit for 15 clocks and no longer. -/
theorem startBitLaw_iff (low : n.cs = false) : StartBitLaw n zeros ↔ zeros ≤ 15 := by
  constructor
  · intro law
    by_contra more
    have many : 16 ≤ zeros := by omega
    have ran := law.2 2#2 0#6 _ (clocks_clockIn _)
    have state : (n.ports (clockIn (List.replicate zeros false ++ commandBits 2#2 0#6))).state =
        .readOut := ran.state
    rcases deaf_behind_zeros low many (clocks_clockIn _) with idle | writes
    · rw [idle] at state
      cases state
    · rw [writes] at state
      cases state
  · intro few
    exact ⟨fun writes clocks => eeprom_zeros low (by omega) clocks,
      fun op a writes clocks => ran_behind_zeros low few clocks⟩

theorem startBitLaw_iff_new : nvramNew.cs = false ∧ StartBitLaw nvramNew 15 :=
  ⟨rfl, (startBitLaw_iff rfl).mpr (by decide)⟩

/-- 24 zeros disable writing. -/
theorem startBitLaw_fails_new : nvramNew.cs = false ∧ ¬ StartBitLaw nvramNew 24 := by
  refine ⟨rfl, fun law => ?_⟩
  have same := congrArg Eeprom.enabled (law.1 _ (clocks_clockIn _))
  have disabled :
      (nvramNew.ports (clockIn (List.replicate 24 false))).eeprom.enabled = false := by
    decide +kernel
  rw [disabled] at same
  cases same

end StartBit

end Ncd15.Emulator
