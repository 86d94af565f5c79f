import Ncd15.Lance.Fcs
import Mathlib.Data.Nat.ModEq
import Mathlib.Tactic.IntervalCases

/-!
# DMA memory and descriptor rings

The host's memory as the chip sees it through its DMA callbacks, the blocks that are read
from it, and the descriptors of a ring that wraps around.
-/

namespace Ncd15.Lance

open Ncd15.Library

section Memory

/-- The words that the DMA callback would answer. -/
abbrev HostMemory := Addr → Half

/-- A write to the cell of an address. -/
def storeWord (cell : Addr → Addr) (mem : HostMemory) (addr : Addr) (data : Half) : HostMemory :=
  fun a => if cell a = cell addr then data else mem a

/-- The later of two writes to a word is the one that counts. -/
theorem storeWord_storeWord (cell : Addr → Addr) (mem : HostMemory) (addr : Addr)
    (data data' : Half) :
    storeWord cell (storeWord cell mem addr data) addr data' = storeWord cell mem addr data' := by
  funext a
  unfold storeWord
  split <;> rfl

/-- The DMA callbacks reach a memory that reads back what was written: an address stands for
a cell, and the words of the 24-bit bus have cells of their own. -/
structure ReadsBack (dmaIn : DmaIn) (cell : Addr → Addr) : Prop where
  written : ∀ log addr data,
    dmaIn (.dmaOut addr data :: log) = storeWord cell (dmaIn log) addr data
  read : ∀ log addr, dmaIn (.dmaIn addr :: log) = dmaIn log
  reported : ∀ log state, dmaIn (.intr state :: log) = dmaIn log
  sent : ∀ log frame, dmaIn (.send frame :: log) = dmaIn log
  apart : ∀ a b, cell a = cell b → a &&& 0xFFFFFE#32 = b &&& 0xFFFFFE#32

/-- The memory that holds `mem` before the first write. -/
def memoryDma (cell : Addr → Addr) (mem : HostMemory) : DmaIn
  | [] => mem
  | .dmaOut addr data :: log => storeWord cell (memoryDma cell mem log) addr data
  | .dmaIn _ :: log => memoryDma cell mem log
  | .intr _ :: log => memoryDma cell mem log
  | .send _ :: log => memoryDma cell mem log

theorem memoryDma_readsBack (cell : Addr → Addr) (mem : HostMemory)
    (apart : ∀ a b, cell a = cell b → a &&& 0xFFFFFE#32 = b &&& 0xFFFFFE#32) :
    ReadsBack (memoryDma cell mem) cell :=
  ⟨fun _ _ _ => rfl, fun _ _ => rfl, fun _ _ => rfl, fun _ _ => rfl, apart⟩

/-- The memory behind the glue, which masks every address with `0xFFFFFE`. -/
theorem glueDma_readsBack (mem : HostMemory) :
    ReadsBack (memoryDma (· &&& 0xFFFFFE#32) mem) (· &&& 0xFFFFFE#32) :=
  memoryDma_readsBack _ mem fun _ _ => id

theorem plainDma_readsBack (mem : HostMemory) : ReadsBack (memoryDma id mem) id :=
  memoryDma_readsBack _ mem fun _ _ => congrArg (· &&& 0xFFFFFE#32)

variable {dmaIn : DmaIn} {cell : Addr → Addr} {mem : HostMemory} {a addr : Addr} {data : Half}

theorem storeWord_same (same : cell a = cell addr) : storeWord cell mem addr data a = data :=
  if_pos same

theorem storeWord_apart (apart : cell a ≠ cell addr) : storeWord cell mem addr data a = mem a :=
  if_neg apart

/-- An interrupt report changes nothing but the line. -/
theorem lanceUpdateInterrupts_spec (memory : ReadsBack dmaIn cell) (l : Chip) :
    ∃ out log, lanceUpdateInterrupts l = { l with intrOutState := out, log := log } ∧
      dmaIn log = dmaIn l.log := by
  unfold lanceUpdateInterrupts
  extract_lets newState
  split
  · exact ⟨_, _, rfl, memory.reported _ _⟩
  · exact ⟨_, _, rfl, rfl⟩

end Memory

section Blocks

/-- The byte at an address, in the byte order that BSWP selects. -/
def memByte (bswap : Bool) (mem : HostMemory) (addr : Addr) : Byte :=
  let word := mem (addr &&& ~~~1#32)
  if addr.getLsbD 0 = bswap then lowByte word else highByte word

def memBytes (bswap : Bool) (mem : HostMemory) : Addr → Nat → List Byte
  | _, 0 => []
  | addr, length + 1 => memByte bswap mem addr :: memBytes bswap mem (addr + 1) length

@[simp] theorem memBytes_length (bswap : Bool) (mem : HostMemory) (addr : Addr) (length : Nat) :
    (memBytes bswap mem addr length).length = length := by
  induction length generalizing addr with
  | zero => rfl
  | succ length ih => simp [memBytes, ih]

theorem add_one_odd (addr : Addr) : (addr + 1).getLsbD 0 = !addr.getLsbD 0 := by
  rw [BitVec.getLsbD_add (by decide), BitVec.carry_zero]
  simp

/-- The byte behind an even address is in the same word. -/
theorem add_one_word {addr : Addr} (even : addr.getLsbD 0 = false) :
    (addr + 1) &&& ~~~1#32 = addr &&& ~~~1#32 := by
  have one : addr + 1#32 = addr ||| 1#32 := by
    refine BitVec.add_eq_or_of_and_eq_zero _ _ ?_
    rw [low_bit, even]
    rfl
  rw [show addr + 1 = addr + 1#32 from rfl, one]
  ext i bound
  by_cases low : i = 0
  · subst low
    simp
  · simp [low]

theorem even_word {addr : Addr} (even : addr.getLsbD 0 = false) : addr &&& ~~~1#32 = addr := by
  ext i bound
  by_cases low : i = 0
  · subst low
    simpa using even
  · simp only [BitVec.getElem_and, BitVec.getElem_not, BitVec.getElem_one, low, decide_false,
      Bool.not_false, Bool.and_true]

theorem add_two_even {addr : Addr} (even : addr.getLsbD 0 = false) :
    (addr + 2).getLsbD 0 = false := by
  rw [show addr + 2 = addr + 1 + 1 by bv_omega, add_one_odd, add_one_odd, even]
  rfl

variable {dmaIn : DmaIn} {cell : Addr → Addr}

theorem dmaInWord_run (memory : ReadsBack dmaIn cell) (addr : Addr) (l : Chip) :
    ∃ log, dmaInWord dmaIn addr l = some (dmaIn l.log addr, { l with log := log }) ∧
      dmaIn log = dmaIn l.log :=
  ⟨_, rfl, memory.read _ _⟩

theorem dmaInPairs_run (memory : ReadsBack dmaIn cell) (bswap : Bool) (length : Nat) {addr : Addr}
    (l : Chip) (even : addr.getLsbD 0 = false) :
    ∃ log, dmaInPairs dmaIn bswap length addr l =
        some (memBytes bswap (dmaIn l.log) addr length, { l with log := log }) ∧
      dmaIn log = dmaIn l.log := by
  induction length, addr using dmaInPairs.induct generalizing l with
  | case1 addr => exact ⟨l.log, rfl, rfl⟩
  | case2 addr =>
      obtain ⟨log, run, same⟩ := dmaInWord_run memory addr l
      refine ⟨log, ?_, same⟩
      rw [dmaInPairs, Prog.bind_eq_of_run run, Prog.pure_run, memBytes, memBytes, memByte,
        even_word even, even]
      cases bswap <;> rfl
  | case3 length addr ih =>
      obtain ⟨log, run, same⟩ := dmaInWord_run memory addr l
      obtain ⟨log', run', same'⟩ := ih { l with log := log } (add_two_even even)
      refine ⟨log', ?_, same'.trans same⟩
      rw [dmaInPairs, Prog.bind_eq_of_run run, Prog.bind_eq_of_run run', Prog.pure_run, memBytes,
        memBytes, memByte, memByte, add_one_word even, even_word even, add_one_odd, even, same,
        show addr + 1 + 1 = addr + 2 by bv_omega]
      cases bswap <;> rfl

/-- A block that is read holds the bytes at its address, at odd addresses too. -/
theorem lanceDmaInBlock_run (memory : ReadsBack dmaIn cell) (addr : Addr) {length : Nat}
    (long : 0 < length) (l : Chip) :
    ∃ log, lanceDmaInBlock dmaIn addr length l =
        some (memBytes (l.csr3.getLsbD 2) (dmaIn l.log) addr length, { l with log := log }) ∧
      dmaIn log = dmaIn l.log := by
  cases odd : addr.getLsbD 0
  case false =>
    obtain ⟨log, run, same⟩ := dmaInPairs_run memory (l.csr3.getLsbD 2) length l odd
    refine ⟨log, ?_, same⟩
    rw [lanceDmaInBlock, Prog.get_bind_run, odd]
    exact run
  case true =>
    obtain ⟨rest, rfl⟩ : ∃ rest, length = rest + 1 := ⟨length - 1, by omega⟩
    obtain ⟨log, run, same⟩ := dmaInWord_run memory (addr &&& ~~~1#32) l
    obtain ⟨log', run', same'⟩ := dmaInPairs_run memory (l.csr3.getLsbD 2) rest
      { l with log := log } (by rw [add_one_odd, odd]; rfl : (addr + 1).getLsbD 0 = false)
    refine ⟨log', ?_, same'.trans same⟩
    rw [lanceDmaInBlock, Prog.get_bind_run]
    simp only [odd, if_true]
    rw [Prog.bind_eq_of_run run, Nat.add_sub_cancel, Prog.bind_eq_of_run run', Prog.pure_run,
      memBytes, memByte, odd, same]
    cases l.csr3.getLsbD 2 <;> rfl

/-- As much of a buffer is gathered as fits. -/
theorem gather_run (memory : ReadsBack dmaIn cell) (addr : Addr) (txBufLength : Nat)
    (buf : List Byte) (l : Chip) :
    ∃ log, gather dmaIn addr txBufLength buf l =
        some (buf ++ memBytes (l.csr3.getLsbD 2) (dmaIn l.log) addr
          (min txBufLength (4096 - buf.length)), { l with log := log }) ∧
      dmaIn log = dmaIn l.log := by
  by_cases some' : 0 < min txBufLength (4096 - buf.length)
  · obtain ⟨log, run, same⟩ := lanceDmaInBlock_run memory addr some' l
    refine ⟨log, ?_, same⟩
    rw [gather]
    simp only [some', if_true]
    rw [Prog.bind_eq_of_run run]
    rfl
  · refine ⟨l.log, ?_, rfl⟩
    rw [gather]
    simp only [some', if_false]
    rw [show min txBufLength (4096 - buf.length) = 0 by omega, memBytes, List.append_nil]
    rfl

theorem lowByte_append (high low : Byte) : lowByte (high ++ low) = low := by
  ext i bound
  simp only [lowByte, BitVec.getElem_setWidth]
  rw [BitVec.getLsbD_append]
  simp [bound]

theorem highByte_append (high low : Byte) : highByte (high ++ low) = high := by
  ext i bound
  simp only [highByte, BitVec.getElem_setWidth, BitVec.getLsbD_ushiftRight]
  rw [BitVec.getLsbD_append]
  simp [bound]

theorem highByte_shiftLeft (high : Byte) : highByte (high.setWidth 16 <<< 8) = high := by
  ext i bound
  have inside : 8 + i < 16 := by omega
  simp only [highByte, BitVec.getElem_setWidth, BitVec.getLsbD_ushiftRight,
    BitVec.getLsbD_shiftLeft, BitVec.getLsbD_setWidth]
  simp [bound, inside, show i < 16 by omega]

/-- The memory behind a block that is written to an even address. -/
def storeBytes (cell : Addr → Addr) (bswap : Bool) : HostMemory → List Byte → Addr → HostMemory
  | mem, [], _ => mem
  | mem, [b], addr =>
      storeWord cell mem addr (if bswap then b.setWidth 16 <<< 8 else b.setWidth 16)
  | mem, a :: b :: rest, addr =>
      storeBytes cell bswap (storeWord cell mem addr (if bswap then a ++ b else b ++ a)) rest
        (addr + 2)

theorem dmaOutPairs_run (memory : ReadsBack dmaIn cell) (bswap : Bool) (bytes : List Byte)
    (addr : Addr) (l : Chip) :
    ∃ log, dmaOutPairs bswap bytes addr l = some ((), { l with log := log }) ∧
      dmaIn log = storeBytes cell bswap (dmaIn l.log) bytes addr := by
  induction bytes, addr using dmaOutPairs.induct generalizing l with
  | case1 addr => exact ⟨l.log, rfl, rfl⟩
  | case2 b addr => exact ⟨_, rfl, memory.written _ _ _⟩
  | case3 a b rest addr ih =>
      obtain ⟨log, run, same⟩ := ih
        { l with log := .dmaOut addr (if bswap then a ++ b else b ++ a) :: l.log }
      refine ⟨log, (Prog.bind_eq_of_run rfl).trans run, ?_⟩
      rw [same, memory.written, storeBytes]

theorem lanceDmaOutBlock_run (memory : ReadsBack dmaIn cell) {addr : Addr}
    (even : addr.getLsbD 0 = false) (bytes : List Byte) (l : Chip) :
    ∃ log, lanceDmaOutBlock addr bytes l = some ((), { l with log := log }) ∧
      dmaIn log = storeBytes cell (l.csr3.getLsbD 2) (dmaIn l.log) bytes addr := by
  obtain ⟨log, run, same⟩ := dmaOutPairs_run memory (l.csr3.getLsbD 2) bytes addr l
  refine ⟨log, ?_, same⟩
  rw [lanceDmaOutBlock, Prog.get_bind_run, even]
  exact run

/-- The word that holds the byte `offset` behind an address. -/
abbrev wordAt (addr : Addr) (offset : Nat) : Addr :=
  (addr + BitVec.ofNat 32 offset) &&& ~~~1#32

theorem wordAt_start (addr : Addr) : wordAt addr 0 = addr &&& ~~~1#32 := by
  rw [wordAt, show addr + BitVec.ofNat 32 0 = addr by bv_omega]

theorem wordAt_one (addr : Addr) (offset : Nat) :
    wordAt (addr + 1) offset = wordAt addr (offset + 1) := by
  rw [wordAt, wordAt, show addr + 1 + BitVec.ofNat 32 offset =
    addr + BitVec.ofNat 32 (offset + 1) by bv_omega]

theorem wordAt_two (addr : Addr) (offset : Nat) :
    wordAt (addr + 2) offset = wordAt addr (offset + 2) := by
  rw [wordAt, wordAt, show addr + 2 + BitVec.ofNat 32 offset =
    addr + BitVec.ofNat 32 (offset + 2) by bv_omega]

theorem wordAt_zero {addr : Addr} (even : addr.getLsbD 0 = false) : wordAt addr 0 = addr := by
  rw [wordAt_start, even_word even]

theorem memBytes_congr {bswap : Bool} {mem mem' : HostMemory} {addr : Addr} {length : Nat}
    (same : ∀ offset < length, mem (wordAt addr offset) = mem' (wordAt addr offset)) :
    memBytes bswap mem addr length = memBytes bswap mem' addr length := by
  induction length generalizing addr with
  | zero => rfl
  | succ length ih =>
      have first := same 0 (by omega)
      rw [wordAt_start] at first
      rw [memBytes, memBytes, memByte, memByte, first, ih]
      intro offset short
      rw [wordAt_one]
      exact same (offset + 1) (by omega)

theorem busWord_toNat (addr : Addr) :
    (addr &&& 0xFFFFFE#32).toNat = 2 * (addr.toNat / 2 % 2 ^ 23) := by
  have shifted : addr &&& 0xFFFFFE#32 = ((addr >>> 1).setWidth 23).setWidth 32 <<< 1 := by
    ext i bound
    interval_cases i <;> simp
  rw [shifted]
  simp only [BitVec.toNat_shiftLeft, BitVec.toNat_setWidth, BitVec.toNat_ushiftRight,
    Nat.shiftLeft_eq, Nat.shiftRight_eq_div_pow]
  omega

theorem wordAt_toNat (addr : Addr) (offset : Nat) :
    (wordAt addr offset).toNat = 2 * ((addr.toNat + offset) % 2 ^ 32 / 2) := by
  have masked (x : Addr) : (x &&& ~~~1#32).toNat = 2 * (x.toNat / 2) := by
    have shifted : x &&& ~~~1#32 = x >>> 1 <<< 1 := by
      ext i bound
      interval_cases i <;> simp
    rw [shifted]
    simp only [BitVec.toNat_shiftLeft, BitVec.toNat_ushiftRight, Nat.shiftLeft_eq,
      Nat.shiftRight_eq_div_pow]
    omega
  rw [masked, BitVec.toNat_add, BitVec.toNat_ofNat]
  omega

/-- The words of a block that is not longer than the bus is wide have cells of their own. -/
theorem ReadsBack.wordAt_ne (memory : ReadsBack dmaIn cell) {addr : Addr} {offset offset' : Nat}
    (even : addr.getLsbD 0 = false) (apart : offset / 2 < offset' / 2) (near : offset' < 2 ^ 24) :
    cell (wordAt addr offset) ≠ cell (wordAt addr offset') := by
  intro same
  have words := congrArg BitVec.toNat (memory.apart _ _ same)
  have parity : addr.toNat % 2 = 0 := by
    rw [BitVec.getLsbD, Nat.testBit_zero] at even
    simpa using even
  rw [busWord_toNat, busWord_toNat, wordAt_toNat, wordAt_toNat] at words
  omega

theorem storeBytes_kept {a : Addr} (bswap : Bool) (mem : HostMemory) (bytes : List Byte)
    {addr : Addr} (even : addr.getLsbD 0 = false)
    (apart : ∀ offset < bytes.length, cell a ≠ cell (wordAt addr offset)) :
    storeBytes cell bswap mem bytes addr a = mem a := by
  induction mem, bytes, addr using storeBytes.induct cell bswap with
  | case1 mem addr => rfl
  | case2 mem b addr =>
      have here := apart 0 (by simp)
      rw [wordAt_zero even] at here
      rw [storeBytes, storeWord_apart here]
  | case3 mem b b' rest addr ih =>
      have here := apart 0 (by simp)
      rw [wordAt_zero even] at here
      rw [storeBytes, ih (add_two_even even), storeWord_apart here]
      intro offset short
      rw [wordAt_two]
      exact apart (offset + 2) (by simp; omega)

/-- A block that was written is read back. -/
theorem memBytes_storeBytes (memory : ReadsBack dmaIn cell) (bswap : Bool) (mem : HostMemory)
    (bytes : List Byte) {addr : Addr} (even : addr.getLsbD 0 = false)
    (short : bytes.length ≤ 2 ^ 24) :
    memBytes bswap (storeBytes cell bswap mem bytes addr) addr bytes.length = bytes := by
  induction mem, bytes, addr using storeBytes.induct cell bswap with
  | case1 mem addr => rfl
  | case2 mem b addr =>
      change [memByte bswap _ addr] = [b]
      rw [storeBytes, memByte, even_word even, even, storeWord_same rfl]
      cases bswap
      · simp [lowByte]
      · simp [highByte_shiftLeft]
  | case3 mem a b rest addr ih =>
      have word : storeBytes cell bswap mem (a :: b :: rest) addr addr =
          if bswap then a ++ b else b ++ a := by
        rw [storeBytes, storeBytes_kept bswap _ rest (add_two_even even), storeWord_same rfl]
        intro offset inside
        rw [wordAt_two]
        have apart := memory.wordAt_ne even (show 0 / 2 < (offset + 2) / 2 by omega)
          (by simp at short; omega)
        rwa [wordAt_zero even] at apart
      have rest' := ih (add_two_even even) (by simp at short; omega)
      change memByte bswap _ addr :: memByte bswap _ (addr + 1) ::
        memBytes bswap _ (addr + 1 + 1) rest.length = _
      rw [memByte, memByte, add_one_word even, even_word even, add_one_odd, even, word,
        show addr + 1 + 1 = addr + 2 by bv_omega, storeBytes, rest']
      cases bswap <;> simp [lowByte_append, highByte_append]

end Blocks

section Rings

/-- `RING_ADDR_MASK` takes a 24-bit address to its descriptor. -/
theorem ringMasked_toNat (x : Addr) : (x &&& 0xFFFFF8#32).toNat = 8 * (x.toNat / 8 % 2 ^ 21) := by
  have shifted : x &&& 0xFFFFF8#32 = ((x >>> 3).setWidth 21).setWidth 32 <<< 3 := by
    ext i bound
    interval_cases i <;> simp
  rw [shifted]
  simp only [BitVec.toNat_shiftLeft, BitVec.toNat_setWidth, BitVec.toNat_ushiftRight,
    Nat.shiftLeft_eq, Nat.shiftRight_eq_div_pow]
  omega

theorem ringAddress_toNat (base : Addr) (pos : Byte) :
    (ringAddress base pos).toNat = 8 * ((base.toNat / 8 + pos.toNat) % 2 ^ 21) := by
  rw [ringAddress, ringMasked_toNat, BitVec.toNat_add, BitVec.toNat_shiftLeft,
    BitVec.toNat_setWidth, Nat.shiftLeft_eq]
  have := pos.isLt
  omega

/-- A word of the descriptor at a position. -/
abbrev ringWord (base : Addr) (pos : Byte) (word : Addr) : Addr := ringAddress base pos ||| word

theorem ringWord_zero (base : Addr) (pos : Byte) : ringWord base pos 0 = ringAddress base pos :=
  BitVec.or_zero

theorem ringWord_toNat (base : Addr) (pos : Byte) {word : Addr} (small : word.toNat < 8) :
    (ringWord base pos word).toNat =
      8 * ((base.toNat / 8 + pos.toNat) % 2 ^ 21) + word.toNat := by
  rw [ringWord, BitVec.toNat_or, ringAddress_toNat]
  exact (Nat.two_pow_add_eq_or_of_lt (i := 3) small _).symm

theorem ringWord_inj {base : Addr} {pos pos' : Byte} {word word' : Addr}
    (small : word.toNat < 8) (small' : word'.toNat < 8)
    (same : ringWord base pos word = ringWord base pos' word') : pos = pos' ∧ word = word' := by
  have nats := congrArg BitVec.toNat same
  rw [ringWord_toNat base pos small, ringWord_toNat base pos' small'] at nats
  have := pos.isLt
  have := pos'.isLt
  constructor
  · apply BitVec.eq_of_toNat_eq
    omega
  · apply BitVec.eq_of_toNat_eq
    omega

theorem ringWord_inside (base : Addr) (pos : Byte) {word : Addr}
    (even : word &&& 0xFFFFFE#32 = word) :
    ringWord base pos word &&& 0xFFFFFE#32 = ringWord base pos word := by
  rw [ringWord, BitVec.and_or_distrib_right, even, ringAddress, BitVec.and_assoc]
  rfl

/-- The offset of a descriptor's word. -/
def WordOffset (word : Addr) : Prop := word ∈ [0#32, 2#32, 4#32, 6#32]

instance (word : Addr) : Decidable (WordOffset word) := List.instDecidableMemOfLawfulBEq _ _

theorem WordOffset.small_even {word : Addr} (offset : WordOffset word) :
    word.toNat < 8 ∧ word &&& 0xFFFFFE#32 = word := by
  have each : ∀ word ∈ [0#32, 2#32, 4#32, 6#32],
      word.toNat < 8 ∧ word &&& 0xFFFFFE#32 = word := by simp
  exact each word offset

/-- The words of the descriptors have cells of their own. -/
theorem ReadsBack.word_inj {dmaIn : DmaIn} {cell : Addr → Addr} (memory : ReadsBack dmaIn cell)
    {base : Addr} {pos pos' : Byte} {word word' : Addr} (here : WordOffset word)
    (there : WordOffset word')
    (same : cell (ringWord base pos word) = cell (ringWord base pos' word')) :
    pos = pos' ∧ word = word' := by
  obtain ⟨small, even⟩ := here.small_even
  obtain ⟨small', even'⟩ := there.small_even
  have words := memory.apart _ _ same
  rw [ringWord_inside base pos even, ringWord_inside base pos' even'] at words
  exact ringWord_inj small small' words

theorem ringAddress_ne (base : Addr) {pos pos' : Byte} (other : pos ≠ pos') :
    ringAddress base pos ≠ ringAddress base pos' := by
  intro same
  refine other (@ringWord_inj base _ _ 0 0 (by decide) (by decide) ?_).1
  rw [ringWord_zero, ringWord_zero, same]

/-- The look-ahead at another descriptor reads its first word. -/
theorem lookAhead_other {dmaIn : DmaIn} {cell : Addr → Addr} (memory : ReadsBack dmaIn cell)
    (base : Addr) {pos nextPos : Byte} (other : nextPos ≠ pos) (md1 : Half) (l : Chip) :
    ∃ log, lookAhead dmaIn (ringAddress base pos) (ringAddress base nextPos) md1 l =
        some (dmaIn l.log (ringWord base nextPos 2), { l with log := log }) ∧
      dmaIn log = dmaIn l.log := by
  rw [lookAhead, if_pos (ringAddress_ne base other)]
  exact dmaInWord_run memory _ l

/-- In a ring of one it finds the word that the chip already has. -/
theorem lookAhead_same (dmaIn : DmaIn) (slot : Addr) (md1 : Half) (l : Chip) :
    lookAhead dmaIn slot slot md1 l = some (md1, l) := by
  rw [lookAhead, if_neg (not_not.mpr rfl)]
  rfl

/-- A ring of `2 ^ exponent` descriptors and a position in it.  The mask of a chip that has
not read an init block is zero. -/
structure Ring (exponent : Nat) (mask pos : Byte) : Prop where
  small : exponent < 8
  mask : mask = ~~~(1#8 <<< exponent) ∨ mask = 0 ∧ exponent = 0
  inside : pos.toNat < 2 ^ exponent

/-- The position `i` places behind `pos`. -/
def ringPos (exponent : Nat) (pos : Byte) (i : Nat) : Byte :=
  BitVec.ofNat 8 ((pos.toNat + i) % 2 ^ exponent)

variable {exponent : Nat} {mask pos : Byte}

theorem Ring.length_le (ring : Ring exponent mask pos) : 2 ^ exponent ≤ 128 := by
  have := ring.small
  interval_cases exponent <;> decide

theorem Ring.ringPos_toNat (ring : Ring exponent mask pos) (i : Nat) :
    (ringPos exponent pos i).toNat = (pos.toNat + i) % 2 ^ exponent := by
  have short := ring.length_le
  have below : (pos.toNat + i) % 2 ^ exponent < 2 ^ exponent :=
    Nat.mod_lt _ (Nat.two_pow_pos exponent)
  rw [ringPos, BitVec.toNat_ofNat]
  exact Nat.mod_eq_of_lt (by omega)

theorem Ring.ringPos_zero (ring : Ring exponent mask pos) : ringPos exponent pos 0 = pos := by
  apply BitVec.eq_of_toNat_eq
  rw [ring.ringPos_toNat, Nat.add_zero, Nat.mod_eq_of_lt ring.inside]

theorem Ring.ringPos_wrap (ring : Ring exponent mask pos) :
    ringPos exponent pos (2 ^ exponent) = ringPos exponent pos 0 := by
  apply BitVec.eq_of_toNat_eq
  rw [ring.ringPos_toNat, ring.ringPos_toNat, Nat.add_mod_right, Nat.add_zero]

/-- The next position, as the code computes it. -/
theorem Ring.next (ring : Ring exponent mask pos) (i : Nat) :
    (ringPos exponent pos i + 1) &&& mask = ringPos exponent pos (i + 1) := by
  have step : ∀ exponent < 8, ∀ pos : Byte, pos.toNat < 2 ^ exponent →
      ((pos + 1) &&& ~~~(1#8 <<< exponent)).toNat = (pos.toNat + 1) % 2 ^ exponent := by
    decide +kernel
  have inside : (ringPos exponent pos i).toNat < 2 ^ exponent := by
    rw [ring.ringPos_toNat]
    exact Nat.mod_lt _ (Nat.two_pow_pos exponent)
  apply BitVec.eq_of_toNat_eq
  rw [ring.ringPos_toNat, ← Nat.add_assoc, ← Nat.mod_add_mod, ← ring.ringPos_toNat]
  rcases ring.mask with rfl | ⟨rfl, rfl⟩
  · exact step exponent ring.small _ inside
  · rw [show (ringPos 0 pos i + 1) &&& (0 : Byte) = 0 by simp, pow_zero, Nat.mod_one]
    rfl

theorem Ring.ringPos_inj (ring : Ring exponent mask pos) {i j : Nat} (here : i < 2 ^ exponent)
    (there : j < 2 ^ exponent) (same : ringPos exponent pos i = ringPos exponent pos j) :
    i = j := by
  have nats := congrArg BitVec.toNat same
  rw [ring.ringPos_toNat, ring.ringPos_toNat] at nats
  exact (Nat.ModEq.add_left_cancel' pos.toNat nats).eq_of_lt_of_lt here there

/-- A descriptor's first word with OWN cleared. -/
def clearOwn (md1 : Half) : Half := md1 &&& ~~~0x8000#16

theorem clearOwn_own (md1 : Half) : (clearOwn md1).getLsbD 15 = false := by
  simp [clearOwn]

end Rings

end Ncd15.Lance
