import Ncd15.Lance.HostMemory

/-!
# Blocks at odd addresses

A block goes to the host in halfwords, and the callback has no way to write one byte of them.
A block that starts or ends at an odd address is therefore stored with a zero in front of it
or behind it.
-/

namespace Ncd15.Lance

open Ncd15.Library

section Buses

/-- The halfwords that the addresses of a bus of `bits` bits stand for, behind callbacks that
read and write them.  The glue passes on 24 bits of an address. -/
structure Bus (bits : Nat) (dmaIn : DmaIn) (cell : Addr → Addr) : Prop
    extends ReadsBack dmaIn cell where
  width : bits = 24 ∨ bits = 32
  cells : ∀ a b, cell a = cell b ↔ a.toNat / 2 % 2 ^ (bits - 1) = b.toNat / 2 % 2 ^ (bits - 1)
  halfword : ∀ log a b, cell a = cell b → dmaIn log a = dmaIn log b

/-- How far a byte lies behind an address on the bus. -/
def behind (bits : Nat) (addr a : Addr) : Nat := (a - addr).toNat % 2 ^ bits

variable {bits : Nat} {dmaIn : DmaIn} {cell : Addr → Addr} {mem : HostMemory} {addr a b : Addr}

theorem odd_iff (a : Addr) : a.getLsbD 0 = true ↔ a.toNat % 2 = 1 := by
  rw [BitVec.getLsbD, Nat.testBit_zero, decide_eq_true_iff]

theorem even_iff (a : Addr) : a.getLsbD 0 = false ↔ a.toNat % 2 = 0 := by
  rw [← Bool.not_eq_true, odd_iff]
  omega

theorem word_toNat (a : Addr) : (a &&& ~~~1#32).toNat = 2 * (a.toNat / 2) := by
  have word := wordAt_toNat a 0
  rw [wordAt_start] at word
  have := a.isLt
  omega

theorem Bus.word_iff (bus : Bus bits dmaIn cell) (even : addr.getLsbD 0 = false) :
    cell (a &&& ~~~1#32) = cell addr ↔ behind bits addr a < 2 := by
  have := a.isLt
  have := addr.isLt
  rw [even_iff] at even
  rw [bus.cells, word_toNat, behind, BitVec.toNat_sub]
  rcases bus.width with rfl | rfl <;> omega

theorem Bus.behind_odd (bus : Bus bits dmaIn cell) (even : addr.getLsbD 0 = false) :
    a.getLsbD 0 = decide (behind bits addr a % 2 = 1) := by
  have := a.isLt
  have := addr.isLt
  rw [even_iff] at even
  rw [Bool.eq_iff_iff, odd_iff, decide_eq_true_iff, behind, BitVec.toNat_sub]
  rcases bus.width with rfl | rfl <;> omega

/-- The bytes of a halfword that is stored, and those of all others. -/
theorem Bus.memByte_storeWord (bus : Bus bits dmaIn cell) (bswap : Bool) (mem : HostMemory)
    (even : addr.getLsbD 0 = false) (first second : Byte) (a : Addr) :
    memByte bswap (storeWord cell mem addr (if bswap then first ++ second else second ++ first)) a =
      if behind bits addr a = 0 then first else if behind bits addr a = 1 then second
      else memByte bswap mem a := by
  have parity := bus.behind_odd (a := a) even
  rw [memByte]
  by_cases near : behind bits addr a < 2
  · rw [storeWord_same ((bus.word_iff even).mpr near), parity]
    obtain here | next : behind bits addr a = 0 ∨ behind bits addr a = 1 := by omega
    · rw [here]
      cases bswap <;> simp [lowByte_append, highByte_append]
    · rw [next]
      cases bswap <;> simp [lowByte_append, highByte_append]
  · rw [storeWord_apart (mt (bus.word_iff even).mp near),
      if_neg (show behind bits addr a ≠ 0 by omega), if_neg (show behind bits addr a ≠ 1 by omega)]
    rfl

theorem zero_append (b : Byte) : (0 : Byte) ++ b = b.setWidth 16 := by
  decide +revert

theorem append_zero (b : Byte) : b ++ (0 : Byte) = b.setWidth 16 <<< 8 := by
  decide +revert

/-- One byte in a halfword of its own has a zero behind it. -/
theorem single_word (bswap : Bool) (b : Byte) :
    (if bswap then b.setWidth 16 <<< 8 else b.setWidth 16) =
      if bswap then b ++ (0 : Byte) else (0 : Byte) ++ b := by
  rw [zero_append, append_zero]

end Buses

section Blocks

variable {bits : Nat} {dmaIn : DmaIn} {cell : Addr → Addr} {mem : HostMemory} {addr a b : Addr}
  {bytes : List Byte}

theorem Bus.behind_add_two (bus : Bus bits dmaIn cell) (addr a : Addr) :
    behind bits (addr + 2) a =
      if behind bits addr a < 2 then behind bits addr a + 2 ^ bits - 2
      else behind bits addr a - 2 := by
  have := a.isLt
  have := addr.isLt
  have two : (2 : Addr).toNat = 2 := rfl
  rw [behind, behind, BitVec.toNat_sub, BitVec.toNat_sub, BitVec.toNat_add, two]
  rcases bus.width with rfl | rfl
  · split <;> omega
  · split <;> omega

theorem Bus.even_size (bus : Bus bits dmaIn cell) : 2 ^ bits % 2 = 0 ∧ 4 ≤ 2 ^ bits := by
  rcases bus.width with rfl | rfl <;> decide

/-- A byte of the memory behind a block at an even address. -/
theorem Bus.memByte_storeBytes (bus : Bus bits dmaIn cell) (bswap : Bool) (mem : HostMemory)
    (bytes : List Byte) (even : addr.getLsbD 0 = false) (short : bytes.length ≤ 2 ^ bits)
    (a : Addr) :
    memByte bswap (storeBytes cell bswap mem bytes addr) a =
      if behind bits addr a < bytes.length then bytes.getD (behind bits addr a) 0
      else if behind bits addr a = bytes.length ∧ bytes.length % 2 = 1 then 0
      else memByte bswap mem a := by
  have size := bus.even_size
  induction mem, bytes, addr using storeBytes.induct cell bswap with
  | case1 mem addr => simp [storeBytes]
  | case2 mem b addr =>
      rw [storeBytes, single_word, bus.memByte_storeWord bswap mem even]
      by_cases here : behind bits addr a = 0
      · rw [if_pos here, here]
        rfl
      · by_cases next : behind bits addr a = 1
        · rw [if_neg here, if_pos next, next]
          rfl
        · rw [if_neg here, if_neg next, if_neg (by simpa using here), if_neg (by simp [next])]
  | case3 mem first second rest addr ih =>
      rw [List.length_cons, List.length_cons] at short ⊢
      rw [storeBytes, ih (add_two_even even) (by omega), bus.memByte_storeWord bswap mem even,
        bus.behind_add_two]
      by_cases near : behind bits addr a < 2
      · rw [if_pos near, if_neg (by omega), if_neg (by omega),
          if_pos (show behind bits addr a < rest.length + 1 + 1 by omega)]
        obtain here | next : behind bits addr a = 0 ∨ behind bits addr a = 1 := by omega
        · rw [if_pos here, here]
          rfl
        · rw [if_neg (by omega), if_pos next, next]
          rfl
      · obtain ⟨d, far⟩ : ∃ d, behind bits addr a = d + 2 := ⟨behind bits addr a - 2, by omega⟩
        rw [if_neg near, far, if_neg (show d + 2 ≠ 0 by omega), if_neg (show d + 2 ≠ 1 by omega),
          Nat.add_sub_cancel, List.getD_cons_succ, List.getD_cons_succ]
        by_cases inside : d < rest.length
        · rw [if_pos inside, if_pos (by omega)]
        · rw [if_neg inside, if_neg (show ¬ d + 2 < rest.length + 1 + 1 by omega)]
          exact if_congr (by omega) rfl rfl

/-- A block with the byte that goes out in front of it. -/
def padded (addr : Addr) (bytes : List Byte) : List Byte :=
  if addr.getLsbD 0 then 0 :: bytes else bytes

theorem lanceDmaOutBlock_padded (addr : Addr) (some_ : bytes ≠ []) (l : Chip) :
    lanceDmaOutBlock addr bytes l =
      dmaOutPairs (l.csr3.getLsbD 2) (padded addr bytes) (addr &&& ~~~1#32) l := by
  obtain ⟨b, rest, rfl⟩ := List.exists_cons_of_ne_nil some_
  rw [lanceDmaOutBlock, Prog.get_bind_run, padded]
  cases odd : addr.getLsbD 0
  case false =>
    rw [even_word odd]
    rfl
  case true =>
    have next : (addr &&& ~~~1#32) + 2 = addr + 1 := by
      have two : (2 : Addr).toNat = 2 := rfl
      have one : (1 : Addr).toNat = 1 := rfl
      rw [odd_iff] at odd
      apply BitVec.eq_of_toNat_eq
      rw [BitVec.toNat_add, BitVec.toNat_add, word_toNat, two, one]
      omega
    change _ = (dmaOutWord (addr &&& ~~~1#32)
        (if l.csr3.getLsbD 2 then (0 : Byte) ++ b else b ++ (0 : Byte)) >>=
      fun _ => dmaOutPairs (l.csr3.getLsbD 2) rest ((addr &&& ~~~1#32) + 2)) l
    rw [next, zero_append, append_zero]
    rfl

/-- The block that goes out at the halfword of an odd address begins one byte before it. -/
theorem Bus.behind_word (bus : Bus bits dmaIn cell) (odd : addr.getLsbD 0 = true) (a : Addr) :
    behind bits (addr &&& ~~~1#32) a =
      if behind bits addr a = 2 ^ bits - 1 then 0 else behind bits addr a + 1 := by
  have := a.isLt
  have := addr.isLt
  rw [odd_iff] at odd
  rw [behind, behind, BitVec.toNat_sub, BitVec.toNat_sub, word_toNat]
  rcases bus.width with rfl | rfl
  · split <;> omega
  · split <;> omega

/-- The memory behind a block: its bytes, and the zeros in front of it and behind it. -/
theorem Bus.memByte_block (bus : Bus bits dmaIn cell) (bswap : Bool) (mem : HostMemory)
    (addr : Addr) (short : bytes.length < 2 ^ bits) (a : Addr) :
    memByte bswap (storeBytes cell bswap mem (padded addr bytes) (addr &&& ~~~1#32)) a =
      if behind bits addr a < bytes.length then bytes.getD (behind bits addr a) 0
      else if (behind bits addr a = 2 ^ bits - 1 ∧ addr.toNat % 2 = 1) ∨
          (behind bits addr a = bytes.length ∧ (addr.toNat + bytes.length) % 2 = 1) then 0
      else memByte bswap mem a := by
  have size := bus.even_size
  have below : behind bits addr a < 2 ^ bits := Nat.mod_lt _ (Nat.two_pow_pos bits)
  have word : (addr &&& ~~~1#32).getLsbD 0 = false := by
    rw [even_iff, word_toNat]
    omega
  cases odd : addr.getLsbD 0
  case false =>
    rw [padded, odd, even_word odd]
    rw [even_iff] at odd
    change memByte bswap (storeBytes cell bswap mem bytes addr) a = _
    rw [bus.memByte_storeBytes bswap mem bytes ((even_iff addr).mpr odd) (by omega)]
    exact if_congr Iff.rfl rfl (if_congr (by omega) rfl rfl)
  case true =>
    have before := bus.behind_word odd a
    rw [padded, odd, if_pos rfl,
      bus.memByte_storeBytes bswap mem (0 :: bytes) word (by rw [List.length_cons]; omega), before]
    rw [odd_iff] at odd
    by_cases front : behind bits addr a = 2 ^ bits - 1
    · rw [if_pos front, if_pos (by rw [List.length_cons]; omega),
        if_neg (show ¬ behind bits addr a < bytes.length by omega), if_pos (.inl ⟨front, odd⟩)]
      rfl
    · rw [if_neg front, List.length_cons, List.getD_cons_succ]
      exact if_congr (by omega) rfl (if_congr (by omega) rfl rfl)

theorem Bus.behind_add (bus : Bus bits dmaIn cell) (addr : Addr) {i : Nat} (near : i < 2 ^ bits) :
    behind bits addr (addr + BitVec.ofNat 32 i) = i := by
  have := addr.isLt
  rw [behind, BitVec.toNat_sub, BitVec.toNat_add, BitVec.toNat_ofNat]
  rcases bus.width with rfl | rfl <;> omega

theorem memBytes_eq {bswap : Bool} {mem : HostMemory}
    (same : ∀ i < bytes.length, memByte bswap mem (addr + BitVec.ofNat 32 i) = bytes.getD i 0) :
    memBytes bswap mem addr bytes.length = bytes := by
  induction bytes generalizing addr with
  | nil => rfl
  | cons b rest ih =>
      have first := same 0 (by simp)
      rw [show addr + BitVec.ofNat 32 0 = addr by bv_omega, List.getD_cons_zero] at first
      rw [List.length_cons, memBytes, first, ih]
      intro i inside
      have later := same (i + 1) (by simpa using inside)
      rwa [show addr + BitVec.ofNat 32 (i + 1) = addr + 1 + BitVec.ofNat 32 i by bv_omega,
        List.getD_cons_succ] at later

/-- Bytes at one distance are the same byte of the memory. -/
theorem Bus.memByte_congr (bus : Bus bits dmaIn cell) (bswap : Bool) (log : List Event)
    (same : behind bits addr a = behind bits addr b) :
    memByte bswap (dmaIn log) a = memByte bswap (dmaIn log) b := by
  have := a.isLt
  have := b.isLt
  have := addr.isLt
  rw [behind, behind, BitVec.toNat_sub, BitVec.toNat_sub] at same
  have parity : a.getLsbD 0 = b.getLsbD 0 := by
    rw [Bool.eq_iff_iff, odd_iff, odd_iff]
    rcases bus.width with rfl | rfl <;> omega
  have word : cell (a &&& ~~~1#32) = cell (b &&& ~~~1#32) := by
    rw [bus.cells, word_toNat, word_toNat]
    rcases bus.width with rfl | rfl <;> omega
  rw [memByte, memByte, parity, bus.halfword log _ _ word]

end Blocks

section Ranges

variable {bits : Nat} {dmaIn : DmaIn} {cell : Addr → Addr} {bytes : List Byte}

/-- A block reads back, and nothing but its range has changed exactly when the byte in front of
an odd start and the byte behind an odd end were zero. -/
theorem dma_block_range (bus : Bus bits dmaIn cell) (addr : Addr) (some_ : bytes ≠ [])
    (short : bytes.length < 2 ^ bits) (l : Chip) :
    ∃ log log', lanceDmaOutBlock addr bytes l = some ((), { l with log := log }) ∧
      lanceDmaInBlock dmaIn addr bytes.length { l with log := log } =
        some (bytes, { l with log := log' }) ∧
      ((∀ a, bytes.length ≤ behind bits addr a →
          memByte (l.csr3.getLsbD 2) (dmaIn log) a = memByte (l.csr3.getLsbD 2) (dmaIn l.log) a) ↔
        (addr.toNat % 2 = 1 → memByte (l.csr3.getLsbD 2) (dmaIn l.log) (addr - 1) = 0) ∧
        ((addr.toNat + bytes.length) % 2 = 1 → memByte (l.csr3.getLsbD 2) (dmaIn l.log)
          (addr + BitVec.ofNat 32 bytes.length) = 0)) := by
  obtain ⟨log, run, stored⟩ := dmaOutPairs_run bus.toReadsBack (l.csr3.getLsbD 2)
    (padded addr bytes) (addr &&& ~~~1#32) l
  have byte := bus.memByte_block (l.csr3.getLsbD 2) (dmaIn l.log) addr short
  rw [← stored] at byte
  obtain ⟨log', back, -⟩ := lanceDmaInBlock_run bus.toReadsBack addr
    (List.length_pos_of_ne_nil some_) { l with log := log }
  have whole : memBytes (l.csr3.getLsbD 2) (dmaIn log) addr bytes.length = bytes := by
    refine memBytes_eq fun i inside => ?_
    rw [byte, bus.behind_add addr (by omega), if_pos inside]
  refine ⟨log, log', (lanceDmaOutBlock_padded addr some_ l).trans run, ?_, ?_⟩
  · rw [back]
    exact congrArg (fun block => some (block, { l with log := log' })) whole
  have front : behind bits addr (addr - 1) = 2 ^ bits - 1 := by
    have one : (1 : Addr).toNat = 1 := rfl
    have := addr.isLt
    rw [behind, BitVec.toNat_sub, BitVec.toNat_sub, one]
    rcases bus.width with rfl | rfl <;> omega
  have back_ := bus.behind_add addr short
  constructor
  · intro kept
    refine ⟨fun odd => ?_, fun odd => ?_⟩
    · rw [← kept _ (by rw [front]; omega), byte, front, if_neg (by omega), if_pos (.inl ⟨rfl, odd⟩)]
    · rw [← kept _ (by rw [back_]), byte, back_, if_neg (by omega), if_pos (.inr ⟨rfl, odd⟩)]
  · rintro ⟨zeroFront, zeroBack⟩ a outside
    rw [byte, if_neg (by omega)]
    split
    · rename_i edge
      rcases edge with ⟨here, odd⟩ | ⟨here, odd⟩
      · rw [bus.memByte_congr _ l.log (here.trans front.symm), zeroFront odd]
      · rw [bus.memByte_congr _ l.log (here.trans back_.symm), zeroBack odd]
    · rfl

theorem memoryDma_halfword {mem : HostMemory} (same : ∀ a b, cell a = cell b → mem a = mem b)
    (log : List Event) (a b : Addr) (cells : cell a = cell b) :
    memoryDma cell mem log a = memoryDma cell mem log b := by
  induction log with
  | nil => exact same a b cells
  | cons event log ih =>
      cases event with
      | dmaOut addr data =>
          change (if cell a = _ then data else _) = (if cell b = _ then data else _)
          rw [cells, ih]
      | dmaIn addr => exact ih
      | intr state => exact ih
      | send frame => exact ih

/-- The memory behind the glue, with a halfword for every even address of 24 bits. -/
theorem glue_bus (mem : HostMemory) :
    Bus 24 (memoryDma (· &&& 0xFFFFFE#32) fun a => mem (a &&& 0xFFFFFE#32))
      (· &&& 0xFFFFFE#32) where
  toReadsBack := glueDma_readsBack _
  width := .inl rfl
  cells a b := by
    rw [← BitVec.toNat_inj, busWord_toNat, busWord_toNat]
    omega
  halfword := memoryDma_halfword fun _ _ => congrArg mem

/-- A memory with a halfword for every even address. -/
theorem plain_bus (mem : HostMemory) :
    Bus 32 (memoryDma (· &&& ~~~1#32) fun a => mem (a &&& ~~~1#32)) (· &&& ~~~1#32) where
  toReadsBack := memoryDma_readsBack _ _ fun a b same => by
    rw [← BitVec.toNat_inj, word_toNat, word_toNat] at same
    rw [← BitVec.toNat_inj, busWord_toNat, busWord_toNat]
    omega
  width := .inr rfl
  cells a b := by
    have := a.isLt
    have := b.isLt
    rw [← BitVec.toNat_inj, word_toNat, word_toNat]
    omega
  halfword := memoryDma_halfword fun _ _ => congrArg mem

/-- Three bytes at an odd address, between zeros. -/
theorem dma_block_range_zeros :
    ∃ log log', lanceDmaOutBlock 1 [0xAA, 0xBB, 0xCC] (lanceInit .am7990) =
        some ((), { lanceInit .am7990 with log := log }) ∧
      lanceDmaInBlock (memoryDma (· &&& 0xFFFFFE#32) fun _ => 0) 1 3
          { lanceInit .am7990 with log := log } =
        some ([0xAA, 0xBB, 0xCC], { lanceInit .am7990 with log := log' }) ∧
      memByte false (memoryDma (· &&& 0xFFFFFE#32) (fun _ => 0) log) 0 = 0 := by
  have nonempty : ([0xAA, 0xBB, 0xCC] : List Byte) ≠ [] := by decide
  obtain ⟨log, log', out, back, range⟩ := dma_block_range (glue_bus fun _ => 0) 1 nonempty
    (by decide) (lanceInit .am7990)
  refine ⟨log, log', out, back, ?_⟩
  exact (range.mpr ⟨fun _ => rfl, by decide⟩ 0 (by decide)).trans rfl

/-- One byte at address 1 of a memory of ones: the byte at address 0 becomes zero. -/
theorem dma_block_clears_neighbour :
    lanceDmaOutBlock 1 [0xAA] (lanceInit .am7990) =
        some ((), { lanceInit .am7990 with log := [.dmaOut 0 0xAA00] }) ∧
      1 ≤ behind 24 1 0 ∧
      memByte false (memoryDma (· &&& 0xFFFFFE#32) (fun _ => 0xFFFF) []) 0 = 0xFF ∧
      memByte false (memoryDma (· &&& 0xFFFFFE#32) (fun _ => 0xFFFF) [.dmaOut 0 0xAA00]) 0 = 0 :=
  ⟨rfl, by decide, by decide, by decide⟩

end Ranges

end Ncd15.Lance
