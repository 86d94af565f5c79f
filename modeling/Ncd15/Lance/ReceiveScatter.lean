import Ncd15.Lance.HostMemory

/-!
# A run of receive descriptors

A frame from the wire is scattered over the buffers of the descriptors that the chip owns, in
the order of the ring.
-/

namespace Ncd15.Lance

open Ncd15.Library

section Buffers

/-- The first word of the `i`-th receive descriptor from the chip's on. -/
def Chip.rxFirst (l : Chip) (mem : HostMemory) (exponent i : Nat) : Half :=
  mem (ringWord l.rxRingBase (ringPos exponent l.rxRingPos i) 2)

/-- The room in a buffer; one without length counts as 64 bytes. -/
def rxLength (variant : Variant) (data : Half) : Nat :=
  if lanceGetBufLength variant data ≤ 0 then 64 else (lanceGetBufLength variant data).toNat

/-- The room in the `i`-th buffer. -/
def Chip.rxSize (l : Chip) (mem : HostMemory) (exponent i : Nat) : Nat :=
  rxLength l.variant (mem (ringWord l.rxRingBase (ringPos exponent l.rxRingPos i) 4))

/-- The address of the `i`-th buffer. -/
def Chip.rxAddress (l : Chip) (mem : HostMemory) (exponent i : Nat) : Addr :=
  bufAddress (l.rxFirst mem exponent i)
    (mem (ringAddress l.rxRingBase (ringPos exponent l.rxRingPos i)))

/-- The room in the first `count` buffers. -/
def Chip.rxRoom (l : Chip) (mem : HostMemory) (exponent : Nat) : Nat → Nat
  | 0 => 0
  | count + 1 => l.rxRoom mem exponent count + l.rxSize mem exponent count

/-- What the first `count` buffers hold in `mem'`, where `mem` has the descriptors. -/
def Chip.rxStored (l : Chip) (mem mem' : HostMemory) (exponent count : Nat) : List Byte :=
  (List.range count).flatMap fun i =>
    memBytes (l.csr3.getLsbD 2) mem' (l.rxAddress mem exponent i) (l.rxSize mem exponent i)

/-- The part of a frame that the `i`-th buffer gets. -/
def Chip.rxChunk (l : Chip) (mem : HostMemory) (exponent : Nat) (frame : List Byte) (i : Nat) :
    List Byte :=
  (frame.drop (l.rxRoom mem exponent i)).take (l.rxSize mem exponent i)

/-- `count` descriptors that the chip owns, their status bits clear, with even buffer addresses
and with buffers apart from each other and from the ring. -/
structure RxRun (cell : Addr → Addr) (mem : HostMemory) (exponent count : Nat) (l : Chip) :
    Prop where
  ring : Ring exponent l.rxRingMask l.rxRingPos
  nonempty : 0 < count
  within : count ≤ 2 ^ exponent
  owned : ∀ i < count, (l.rxFirst mem exponent i).getLsbD 15
  clear : ∀ i < count, l.rxFirst mem exponent i &&& 0x7F00#16 = 0#16
  even : ∀ i < count, (l.rxAddress mem exponent i).getLsbD 0 = false
  offRing : ∀ i < count, ∀ offset < l.rxSize mem exponent i, ∀ j < 2 ^ exponent,
    ∀ word, WordOffset word → cell (wordAt (l.rxAddress mem exponent i) offset) ≠
      cell (ringWord l.rxRingBase (ringPos exponent l.rxRingPos j) word)
  disjoint : ∀ i < count, ∀ j < count, i ≠ j → ∀ offset < l.rxSize mem exponent i,
    ∀ offset' < l.rxSize mem exponent j,
      cell (wordAt (l.rxAddress mem exponent i) offset) ≠
        cell (wordAt (l.rxAddress mem exponent j) offset')

/-- The first word of a descriptor as the chip holds it, with STP in the first one. -/
def Chip.rxWord (l : Chip) (mem : HostMemory) (exponent i : Nat) : Half :=
  if i = 0 then l.rxFirst mem exponent i ||| 0x0200 else l.rxFirst mem exponent i

/-- The memory with a frame in the first `count` buffers and their descriptors given back. -/
def Chip.scattered (l : Chip) (cell : Addr → Addr) (mem : HostMemory) (exponent : Nat)
    (frame : List Byte) : Nat → HostMemory
  | 0 => mem
  | count + 1 =>
      storeWord cell
        (storeBytes cell (l.csr3.getLsbD 2) (l.scattered cell mem exponent frame count)
          (l.rxChunk mem exponent frame count) (l.rxAddress mem exponent count))
        (ringWord l.rxRingBase (ringPos exponent l.rxRingPos count) 2)
        (clearOwn (l.rxWord mem exponent count))

variable {dmaIn : DmaIn} {cell : Addr → Addr} {mem : HostMemory} {exponent count : Nat}
variable {frame : List Byte} {start : Chip}

theorem rxSize_pos (l : Chip) (mem : HostMemory) (exponent i : Nat) :
    0 < l.rxSize mem exponent i := by
  unfold Chip.rxSize rxLength
  split <;> omega

theorem rxRoom_mono (l : Chip) (mem : HostMemory) (exponent : Nat) {i j : Nat} (le : i ≤ j) :
    l.rxRoom mem exponent i ≤ l.rxRoom mem exponent j := by
  induction j, le using Nat.le_induction with
  | base => exact le_rfl
  | succ j _ ih => exact ih.trans (Nat.le_add_right _ _)

theorem rxChunk_length (l : Chip) (mem : HostMemory) (exponent : Nat) (frame : List Byte)
    (i : Nat) : (l.rxChunk mem exponent frame i).length =
      min (l.rxSize mem exponent i) (frame.length - l.rxRoom mem exponent i) := by
  rw [Chip.rxChunk, List.length_take, List.length_drop]

theorem rxChunk_le (l : Chip) (mem : HostMemory) (exponent : Nat) (frame : List Byte) (i : Nat) :
    (l.rxChunk mem exponent frame i).length ≤ l.rxSize mem exponent i := by
  rw [rxChunk_length]
  exact Nat.min_le_left _ _

/-- What lies off the buffers and off the first words of the run keeps its value. -/
theorem scattered_kept (run : RxRun cell mem exponent count start) {given : Nat}
    (before : given ≤ count) {a : Addr}
    (offWords : ∀ i < given,
      cell a ≠ cell (ringWord start.rxRingBase (ringPos exponent start.rxRingPos i) 2))
    (offBuffers : ∀ i < given, ∀ offset < start.rxSize mem exponent i,
      cell a ≠ cell (wordAt (start.rxAddress mem exponent i) offset)) :
    start.scattered cell mem exponent frame given a = mem a := by
  induction given with
  | zero => rfl
  | succ given ih =>
      rw [Chip.scattered, storeWord_apart (offWords given (by omega)),
        storeBytes_kept _ _ _ (run.even given (by omega)),
        ih (by omega) (fun i inside => offWords i (by omega))
          fun i inside => offBuffers i (by omega)]
      intro offset inside
      exact offBuffers given (by omega) offset (inside.trans_le (rxChunk_le _ _ _ _ _))

/-- The descriptors not given back yet, and the other words of all of them, are as before. -/
theorem scattered_word (memory : ReadsBack dmaIn cell) (run : RxRun cell mem exponent count start)
    {given j : Nat} (before : given ≤ count) (inside : j < 2 ^ exponent) {word : Addr}
    (offset : WordOffset word) (fresh : word ≠ 2 ∨ given ≤ j) :
    start.scattered cell mem exponent frame given
        (ringWord start.rxRingBase (ringPos exponent start.rxRingPos j) word) =
      mem (ringWord start.rxRingBase (ringPos exponent start.rxRingPos j) word) := by
  have := run.within
  refine scattered_kept run before (fun i earlier same => ?_) fun i earlier o short same => ?_
  · obtain ⟨pos, first⟩ := memory.word_inj offset (by decide) same
    rcases fresh with other | behind
    · exact other first
    · have := run.ring.ringPos_inj inside (by omega) pos
      omega
  · exact run.offRing i (by omega) o short j inside word offset same.symm

/-- A descriptor that has been given back. -/
theorem scattered_given (memory : ReadsBack dmaIn cell)
    (run : RxRun cell mem exponent count start) {given i : Nat} (before : given ≤ count)
    (inside : i < given) :
    start.scattered cell mem exponent frame given
        (ringWord start.rxRingBase (ringPos exponent start.rxRingPos i) 2) =
      clearOwn (start.rxWord mem exponent i) := by
  have := run.within
  induction given with
  | zero => omega
  | succ given ih =>
      rw [Chip.scattered]
      by_cases last : i = given
      · rw [last, storeWord_same rfl]
      · rw [storeWord_apart, storeBytes_kept _ _ _ (run.even given (by omega)),
          ih (by omega) (by omega)]
        · intro offset short same
          exact run.offRing given (by omega) offset (short.trans_le (rxChunk_le _ _ _ _ _)) i
            (by omega) 2 (by decide) same.symm
        · intro same
          exact last (run.ring.ringPos_inj (by omega) (by omega)
            (memory.word_inj (by decide) (by decide) same).1)

/-- A buffer begins with its part of the frame. -/
theorem scattered_chunk (memory : ReadsBack dmaIn cell)
    (run : RxRun cell mem exponent count start) {frame : List Byte}
    (short : frame.length ≤ 4095) {given i : Nat}
    (before : given ≤ count) (inside : i < given) :
    memBytes (start.csr3.getLsbD 2) (start.scattered cell mem exponent frame given)
        (start.rxAddress mem exponent i) (start.rxChunk mem exponent frame i).length =
      start.rxChunk mem exponent frame i := by
  have := run.within
  induction given with
  | zero => omega
  | succ given ih =>
      have offWord : ∀ offset < (start.rxChunk mem exponent frame i).length,
          cell (wordAt (start.rxAddress mem exponent i) offset) ≠
            cell (ringWord start.rxRingBase (ringPos exponent start.rxRingPos given) 2) :=
        fun offset within => run.offRing i (by omega) offset
          (within.trans_le (rxChunk_le _ _ _ _ _)) given (by omega) 2 (by decide)
      rw [Chip.scattered]
      by_cases last : i = given
      · subst last
        have fits : (start.rxChunk mem exponent frame i).length ≤ 2 ^ 24 := by
          rw [rxChunk_length]
          omega
        refine (memBytes_congr fun offset within =>
          storeWord_apart (offWord offset within)).trans ?_
        exact memBytes_storeBytes memory _ _ _ (run.even i (by omega)) fits
      · refine (memBytes_congr fun offset within => ?_).trans (ih (by omega) (by omega))
        rw [storeWord_apart (offWord offset within),
          storeBytes_kept _ _ _ (run.even given (by omega))]
        intro offset' within'
        exact run.disjoint i (by omega) given (by omega) last offset
          (within.trans_le (rxChunk_le _ _ _ _ _)) offset'
          (within'.trans_le (rxChunk_le _ _ _ _ _))

theorem memBytes_prefix (bswap : Bool) (mem : HostMemory) (addr : Addr) {short long : Nat}
    (le : short ≤ long) : memBytes bswap mem addr short <+: memBytes bswap mem addr long := by
  induction short generalizing addr long with
  | zero => exact List.nil_prefix
  | succ short ih =>
      obtain ⟨long, rfl⟩ : ∃ n, long = n + 1 := ⟨long - 1, by omega⟩
      exact List.prefix_cons_inj _ |>.mpr (ih _ (by omega))

theorem rxStored_succ (l : Chip) (mem mem' : HostMemory) (exponent count : Nat) :
    l.rxStored mem mem' exponent (count + 1) = l.rxStored mem mem' exponent count ++
      memBytes (l.csr3.getLsbD 2) mem' (l.rxAddress mem exponent count)
        (l.rxSize mem exponent count) := by
  simp [Chip.rxStored, List.range_succ]

theorem rxStored_congr {l : Chip} {mem mem' mem'' : HostMemory}
    (same : ∀ i < count, ∀ offset < l.rxSize mem exponent i,
      mem' (wordAt (l.rxAddress mem exponent i) offset) =
        mem'' (wordAt (l.rxAddress mem exponent i) offset)) :
    l.rxStored mem mem' exponent count = l.rxStored mem mem'' exponent count := by
  induction count with
  | zero => rfl
  | succ count ih =>
      rw [rxStored_succ, rxStored_succ, ih fun i inside => same i (by omega),
        memBytes_congr (same count (by omega))]

/-- Full buffers hold the beginning of the frame. -/
theorem scattered_full (memory : ReadsBack dmaIn cell)
    (run : RxRun cell mem exponent count start) (short : frame.length ≤ 4095) {given full : Nat}
    (before : given ≤ count) (inside : full ≤ given)
    (fills : start.rxRoom mem exponent full ≤ frame.length) :
    start.rxStored mem (start.scattered cell mem exponent frame given) exponent full =
      frame.take (start.rxRoom mem exponent full) := by
  induction full with
  | zero => rfl
  | succ full ih =>
      rw [Chip.rxRoom] at fills
      have chunk := scattered_chunk memory run short before inside
      have whole : (start.rxChunk mem exponent frame full).length =
          start.rxSize mem exponent full := by
        rw [rxChunk_length]
        omega
      rw [whole] at chunk
      rw [rxStored_succ, ih (by omega) (by omega), chunk, Chip.rxRoom, Chip.rxChunk,
        List.take_add]

/-- Buffers with enough room hold the frame. -/
theorem scattered_covers (memory : ReadsBack dmaIn cell) {last : Nat}
    (run : RxRun cell mem exponent (last + 1) start) (short : frame.length ≤ 4095)
    (before : start.rxRoom mem exponent last ≤ frame.length)
    (covers : frame.length ≤ start.rxRoom mem exponent (last + 1)) :
    frame <+: start.rxStored mem (start.scattered cell mem exponent frame (last + 1)) exponent
      (last + 1) := by
  have chunk := scattered_chunk memory run short le_rfl (Nat.lt_succ_self last)
  rw [Chip.rxRoom] at covers
  have rest : start.rxChunk mem exponent frame last =
      frame.drop (start.rxRoom mem exponent last) :=
    List.take_of_length_le (by rw [List.length_drop]; omega)
  have begins := memBytes_prefix (start.csr3.getLsbD 2)
    (start.scattered cell mem exponent frame (last + 1)) (start.rxAddress mem exponent last)
    (rxChunk_le start mem exponent frame last)
  rw [chunk, rest] at begins
  rw [rxStored_succ, scattered_full memory run short le_rfl (Nat.le_succ last) before]
  have whole := (List.prefix_append_right_inj
    (frame.take (start.rxRoom mem exponent last))).mpr begins
  rwa [List.take_append_drop] at whole

end Buffers

section Rounds

/-- The chip without what the rounds of a reception change. -/
def Chip.rxSettings (l : Chip) : Chip :=
  { l with rxRingPos := 0, rxMd0 := 0, rxMd1 := 0, rxMd2 := 0, log := [] }

/-- A reception that began in `start`, with memory `mem`, has gone on to the descriptor `i` places
behind. -/
structure RxWalk (dmaIn : DmaIn) (cell : Addr → Addr) (mem : HostMemory) (exponent : Nat)
    (frame : List Byte) (start : Chip) (i : Nat) (l : Chip) : Prop where
  settings : l.rxSettings = start.rxSettings
  pos : l.rxRingPos = ringPos exponent start.rxRingPos i
  md1 : l.rxMd1 = start.rxWord mem exponent i
  memory : dmaIn l.log = start.scattered cell mem exponent frame i

variable {dmaIn : DmaIn} {cell : Addr → Addr} {mem : HostMemory} {exponent count i : Nat}
variable {frame : List Byte} {start l : Chip}

theorem RxWalk.base (walk : RxWalk dmaIn cell mem exponent frame start i l) :
    l.rxRingBase = start.rxRingBase := (congrArg Chip.rxRingBase walk.settings :)

theorem RxWalk.mask (walk : RxWalk dmaIn cell mem exponent frame start i l) :
    l.rxRingMask = start.rxRingMask := (congrArg Chip.rxRingMask walk.settings :)

/-- The address of the descriptor. -/
abbrev Chip.rxSlot (l : Chip) : Addr := ringAddress l.rxRingBase l.rxRingPos

/-- The chip behind the part of a round that fills the buffer, with the memory from before it. -/
def Chip.filled (l : Chip) (mem : HostMemory) (log : List Event) : Chip :=
  { l with
    rxMd0 := mem l.rxSlot
    rxMd1 := clearOwn l.rxMd1
    rxMd2 := mem (ringWord l.rxRingBase l.rxRingPos 4)
    log := log }

/-- STP is no part of the address. -/
theorem rxAddress_stp (md1 md0 : Half) :
    bufAddress (md1 ||| 0x0200) md0 = bufAddress md1 md0 := by
  have low : (md1 ||| 0x0200#16) &&& 0xFF#16 = md1 &&& 0xFF#16 := by
    rw [BitVec.and_or_distrib_right]
    exact BitVec.or_zero
  exact congrArg (fun low : Half => low.setWidth 32 <<< 16 ||| md0.setWidth 32) low

/-- The part of a round behind the reads of the descriptor. -/
def fillBuffer (dmaIn : DmaIn) (buf : List Byte) (slot : Addr) (offset : Nat) (addr : Addr)
    (count : Nat) : LanceM ((Addr × Nat) ⊕ Nat) := do
  lanceDmaOutBlock addr ((buf.drop offset).take count)
  modify fun l => { l with rxMd1 := l.rxMd1 &&& ~~~0x8000#16 }
  if offset + count < buf.length then receiveNext dmaIn slot (offset + count)
  else pure (.inl (slot, offset + count))

theorem receiveRound_more (dmaIn : DmaIn) {buf : List Byte} {offset : Nat} (slot : Addr)
    (more : offset < buf.length) :
    receiveRound dmaIn buf (slot, offset) = (do
      let md0 ← dmaInWord dmaIn slot
      modify fun l => { l with rxMd0 := md0 }
      let md2 ← dmaInWord dmaIn (slot ||| 4)
      modify fun l => { l with rxMd2 := md2 }
      let l ← get
      fillBuffer dmaIn buf slot offset (bufAddress l.rxMd1 md0)
        (min (buf.length - offset) (rxLength l.variant md2))) :=
  if_neg (Nat.not_le.mpr more)

/-- A round stores the descriptor's part of the frame. -/
theorem RxWalk.stores (memory : ReadsBack dmaIn cell) (run : RxRun cell mem exponent count start)
    (walk : RxWalk dmaIn cell mem exponent frame start i l) (inside : i < count)
    (more : start.rxRoom mem exponent i < frame.length) :
    ∃ log, dmaIn log = storeBytes cell (start.csr3.getLsbD 2) (dmaIn l.log)
        (start.rxChunk mem exponent frame i) (start.rxAddress mem exponent i) ∧
      receiveRound dmaIn frame (l.rxSlot, start.rxRoom mem exponent i) l =
        (if start.rxRoom mem exponent (i + 1) < frame.length then
          receiveNext dmaIn l.rxSlot (start.rxRoom mem exponent (i + 1))
        else pure (.inl (l.rxSlot, frame.length))) (l.filled (dmaIn l.log) log) := by
  have within := run.within
  have csr3 : l.csr3 = start.csr3 := (congrArg Chip.csr3 walk.settings :)
  have variant : l.variant = start.variant := (congrArg Chip.variant walk.settings :)
  obtain ⟨log₁, run₁, same₁⟩ := dmaInWord_run memory l.rxSlot l
  obtain ⟨log₂, run₂, same₂⟩ := dmaInWord_run memory (ringWord l.rxRingBase l.rxRingPos 4)
    { l with rxMd0 := dmaIn l.log l.rxSlot, log := log₁ }
  have md0 : dmaIn l.log l.rxSlot =
      mem (ringAddress start.rxRingBase (ringPos exponent start.rxRingPos i)) := by
    rw [walk.memory, Chip.rxSlot, walk.base, walk.pos, ← ringWord_zero,
      scattered_word memory run (by omega) (by omega) (by decide) (.inl (by decide)),
      ringWord_zero]
  have md2 : dmaIn log₁ (ringWord l.rxRingBase l.rxRingPos 4) =
      mem (ringWord start.rxRingBase (ringPos exponent start.rxRingPos i) 4) := by
    rw [same₁, walk.memory, walk.base, walk.pos,
      scattered_word memory run (by omega) (by omega) (by decide) (.inl (by decide))]
  have address : bufAddress l.rxMd1 (dmaIn l.log l.rxSlot) = start.rxAddress mem exponent i := by
    rw [md0, walk.md1, Chip.rxWord]
    split
    case isTrue => exact rxAddress_stp _ _
    case isFalse => rfl
  obtain ⟨log₃, run₃, same₃⟩ := lanceDmaOutBlock_run memory (run.even i inside)
    (start.rxChunk mem exponent frame i)
    { l with
      rxMd0 := dmaIn l.log l.rxSlot
      rxMd2 := dmaIn log₁ (ringWord l.rxRingBase l.rxRingPos 4)
      log := log₂ }
  have size : rxLength l.variant (dmaIn log₁ (ringWord l.rxRingBase l.rxRingPos 4)) =
      start.rxSize mem exponent i := by
    rw [md2, variant, Chip.rxSize]
  have chunk : (frame.drop (start.rxRoom mem exponent i)).take
      (min (frame.length - start.rxRoom mem exponent i) (start.rxSize mem exponent i)) =
        start.rxChunk mem exponent frame i := by
    rw [Chip.rxChunk, ← List.length_drop, List.take_eq_take_iff]
    omega
  refine ⟨log₃, ?_, ?_⟩
  · rw [same₃, csr3, same₂.trans same₁]
  rw [receiveRound_more dmaIn _ more, Prog.bind_eq_of_run run₁, Prog.modify_bind_run,
    Prog.bind_eq_of_run run₂, Prog.modify_bind_run, Prog.get_bind_run, address, size, fillBuffer,
    chunk, Prog.bind_eq_of_run run₃, Prog.modify_bind_run, Chip.filled, same₁]
  by_cases further : start.rxRoom mem exponent (i + 1) < frame.length
  · have stored : start.rxRoom mem exponent i +
        min (frame.length - start.rxRoom mem exponent i) (start.rxSize mem exponent i) =
          start.rxRoom mem exponent (i + 1) := by
      rw [Chip.rxRoom] at further ⊢
      omega
    rw [stored, if_pos further, if_pos further]
    rfl
  · have stored : start.rxRoom mem exponent i +
        min (frame.length - start.rxRoom mem exponent i) (start.rxSize mem exponent i) =
          frame.length := by
      rw [Chip.rxRoom] at further
      omega
    rw [stored, if_neg (lt_irrefl _), if_neg further]
    rfl

/-- The look-ahead finds the next descriptor ready. -/
theorem receiveNext_owned (memory : ReadsBack dmaIn cell) (l : Chip) (offset : Nat)
    {nextPos : Byte} (next : (l.rxRingPos + 1) &&& l.rxRingMask = nextPos)
    (other : nextPos ≠ l.rxRingPos)
    (own : (dmaIn l.log (ringWord l.rxRingBase nextPos 2)).getLsbD 15) :
    ∃ log, dmaIn log =
        storeWord cell (dmaIn l.log) (ringWord l.rxRingBase l.rxRingPos 2) l.rxMd1 ∧
      receiveNext dmaIn l.rxSlot offset l =
        some (.inl (ringAddress l.rxRingBase nextPos, offset),
          { l with
            rxRingPos := nextPos
            rxMd1 := dmaIn l.log (ringWord l.rxRingBase nextPos 2)
            log := log }) := by
  subst next
  obtain ⟨log, run, same⟩ := lookAhead_other memory l.rxRingBase other l.rxMd1 l
  refine ⟨.dmaOut (ringWord l.rxRingBase l.rxRingPos 2) l.rxMd1 :: log, ?_, ?_⟩
  · rw [memory.written, same]
  · rw [receiveNext, Prog.get_bind_run, Prog.bind_eq_of_run run]
    simp only [own, if_true]
    rfl

/-- The look-ahead finds no further descriptor, or this one again. -/
theorem receiveNext_overflow (memory : ReadsBack dmaIn cell) (l : Chip) (offset : Nat)
    {nextPos : Byte} (next : (l.rxRingPos + 1) &&& l.rxRingMask = nextPos)
    (cleared : l.rxMd1.getLsbD 15 = false)
    (own : nextPos ≠ l.rxRingPos →
      (dmaIn l.log (ringWord l.rxRingBase nextPos 2)).getLsbD 15 = false) :
    ∃ log, dmaIn log = dmaIn l.log ∧
      receiveNext dmaIn l.rxSlot offset l =
        some (.inr offset, { l with rxMd1 := l.rxMd1 ||| 0x4400, log := log }) := by
  subst next
  rw [receiveNext, Prog.get_bind_run]
  by_cases alone : (l.rxRingPos + 1) &&& l.rxRingMask = l.rxRingPos
  · refine ⟨l.log, rfl, ?_⟩
    rw [alone, Prog.bind_eq_of_run (lookAhead_same _ _ _ _)]
    simp only [cleared]
    rfl
  · obtain ⟨log, run, same⟩ := lookAhead_other memory l.rxRingBase alone l.rxMd1 l
    refine ⟨log, same, ?_⟩
    rw [Prog.bind_eq_of_run run]
    simp only [own alone]
    rfl

theorem RxWalk.nextPos (run : RxRun cell mem exponent count start)
    (walk : RxWalk dmaIn cell mem exponent frame start i l) :
    (l.rxRingPos + 1) &&& l.rxRingMask = ringPos exponent start.rxRingPos (i + 1) := by
  rw [walk.pos, walk.mask, run.ring.next]

/-- The first word of a descriptor ahead, behind the bytes that this round stores. -/
theorem RxWalk.aheadWord (memory : ReadsBack dmaIn cell)
    (run : RxRun cell mem exponent count start)
    (walk : RxWalk dmaIn cell mem exponent frame start i l) (inside : i < count) {j : Nat}
    (ahead : i < j) (short : j < 2 ^ exponent) :
    storeBytes cell (start.csr3.getLsbD 2) (dmaIn l.log) (start.rxChunk mem exponent frame i)
        (start.rxAddress mem exponent i)
        (ringWord start.rxRingBase (ringPos exponent start.rxRingPos j) 2) =
      start.rxFirst mem exponent j := by
  rw [storeBytes_kept _ _ _ (run.even i inside), walk.memory,
    scattered_word memory run (by omega) short (by decide) (.inr (by omega)), Chip.rxFirst]
  intro offset within same
  exact run.offRing i inside offset (within.trans_le (rxChunk_le _ _ _ _ _)) j short 2
    (by decide) same.symm

/-- A round that fills its buffer and goes on. -/
theorem RxWalk.next (memory : ReadsBack dmaIn cell) (run : RxRun cell mem exponent count start)
    (walk : RxWalk dmaIn cell mem exponent frame start i l) (inside : i + 1 < count)
    (more : start.rxRoom mem exponent (i + 1) < frame.length) :
    ∃ l', receiveRound dmaIn frame (l.rxSlot, start.rxRoom mem exponent i) l =
        some (.inl (l'.rxSlot, start.rxRoom mem exponent (i + 1)), l') ∧
      RxWalk dmaIn cell mem exponent frame start (i + 1) l' := by
  have within := run.within
  have before : start.rxRoom mem exponent i < frame.length := by
    rw [Chip.rxRoom] at more
    omega
  obtain ⟨log, stored, round⟩ := walk.stores memory run (by omega) before
  have word : dmaIn log (ringWord l.rxRingBase (ringPos exponent start.rxRingPos (i + 1)) 2) =
      start.rxFirst mem exponent (i + 1) := by
    rw [stored, walk.base, walk.aheadWord memory run (by omega) (by omega) (by omega)]
  have other : ringPos exponent start.rxRingPos (i + 1) ≠ l.rxRingPos := by
    rw [walk.pos]
    intro wrapped
    have := run.ring.ringPos_inj (by omega) (by omega) wrapped
    omega
  have owned : (dmaIn log (ringWord l.rxRingBase
      (ringPos exponent start.rxRingPos (i + 1)) 2)).getLsbD 15 :=
    word ▸ run.owned (i + 1) inside
  have nextPos := walk.nextPos run
  obtain ⟨log', given, advance⟩ := receiveNext_owned memory (l.filled (dmaIn l.log) log)
    (start.rxRoom mem exponent (i + 1)) nextPos other owned
  rw [if_pos more] at round
  let l' : Chip :=
    { l.filled (dmaIn l.log) log with
      rxRingPos := ringPos exponent start.rxRingPos (i + 1)
      rxMd1 := dmaIn log (ringWord l.rxRingBase (ringPos exponent start.rxRingPos (i + 1)) 2)
      log := log' }
  refine ⟨l', round.trans advance, walk.settings, rfl, ?_, ?_⟩
  · rw [Chip.rxWord, if_neg (Nat.succ_ne_zero i), ← word]
  · rw [Chip.scattered, ← walk.base, ← walk.pos, ← walk.md1, ← walk.memory, ← stored]
    exact given

/-- The rounds of a reception as far as the last descriptor that it uses. -/
theorem RxRun.reaches (memory : ReadsBack dmaIn cell) {last : Nat}
    (run : RxRun cell mem exponent (last + 1) start)
    (more : start.rxRoom mem exponent last < frame.length) (left : Nat)
    (walk : RxWalk dmaIn cell mem exponent frame start i l) (rest : i + left = last)
    (rounds : Nat) :
    ∃ l', RxWalk dmaIn cell mem exponent frame start last l' ∧
      Prog.loop (receiveRound dmaIn frame) (rounds + left)
          (l.rxSlot, start.rxRoom mem exponent i) l =
        Prog.loop (receiveRound dmaIn frame) rounds
          (l'.rxSlot, start.rxRoom mem exponent last) l' := by
  induction left generalizing i l with
  | zero =>
      obtain rfl : i = last := rest
      exact ⟨l, walk, rfl⟩
  | succ left ih =>
      have monotone : start.rxRoom mem exponent (i + 1) ≤ start.rxRoom mem exponent last :=
        rxRoom_mono _ _ _ (by omega)
      obtain ⟨l', round, walk'⟩ := walk.next memory run (by omega) (by omega)
      obtain ⟨l'', walk'', loops⟩ := ih walk' (by omega)
      exact ⟨l'', walk'', (Prog.loop_inl round).trans loops⟩

/-- The loop of `lance_receive` is over at the descriptor `last` places behind, which has not been
written back. -/
structure RxDone (dmaIn : DmaIn) (cell : Addr → Addr) (mem : HostMemory) (exponent : Nat)
    (frame : List Byte) (start : Chip) (last : Nat) (flags : Half) (l : Chip) : Prop where
  settings : l.rxSettings = start.rxSettings
  pos : l.rxRingPos = ringPos exponent start.rxRingPos last
  md1 : l.rxMd1 = clearOwn (start.rxWord mem exponent last) ||| flags
  memory : dmaIn l.log = storeBytes cell (start.csr3.getLsbD 2)
    (start.scattered cell mem exponent frame last) (start.rxChunk mem exponent frame last)
    (start.rxAddress mem exponent last)

/-- The last buffer has room for the rest of the frame. -/
theorem RxWalk.covers (memory : ReadsBack dmaIn cell) (run : RxRun cell mem exponent count start)
    (walk : RxWalk dmaIn cell mem exponent frame start i l) (inside : i < count)
    (more : start.rxRoom mem exponent i < frame.length)
    (covers : frame.length ≤ start.rxRoom mem exponent (i + 1)) (rounds : Nat) :
    ∃ l', Prog.loop (receiveRound dmaIn frame) (rounds + 2)
        (l.rxSlot, start.rxRoom mem exponent i) l = some (frame.length, l') ∧
      RxDone dmaIn cell mem exponent frame start i 0 l' := by
  obtain ⟨log, stored, round⟩ := walk.stores memory run inside more
  rw [if_neg (Nat.not_lt.mpr covers)] at round
  have ends : receiveRound dmaIn frame (l.rxSlot, frame.length) (l.filled (dmaIn l.log) log) =
      some (.inr frame.length, l.filled (dmaIn l.log) log) := by
    rw [receiveRound, if_pos le_rfl]
    rfl
  refine ⟨_, (Prog.loop_inl round).trans (Prog.loop_inr ends), walk.settings, walk.pos, ?_, ?_⟩
  · rw [← walk.md1]
    exact BitVec.or_zero.symm
  · exact stored.trans (by rw [walk.memory])

/-- The last buffer of the run is full and the frame is not over. -/
theorem RxWalk.overflows (memory : ReadsBack dmaIn cell)
    (run : RxRun cell mem exponent count start)
    (walk : RxWalk dmaIn cell mem exponent frame start i l) (inside : i + 1 = count)
    (more : start.rxRoom mem exponent count < frame.length)
    (ends : count = 2 ^ exponent ∨ (start.rxFirst mem exponent count).getLsbD 15 = false)
    (rounds : Nat) :
    ∃ l', Prog.loop (receiveRound dmaIn frame) (rounds + 1)
        (l.rxSlot, start.rxRoom mem exponent i) l = some (start.rxRoom mem exponent count, l') ∧
      RxDone dmaIn cell mem exponent frame start i 0x4400 l' := by
  subst inside
  have within := run.within
  have before : start.rxRoom mem exponent i < frame.length :=
    (rxRoom_mono _ _ _ (Nat.le_succ i)).trans_lt more
  obtain ⟨log, stored, round⟩ := walk.stores memory run (Nat.lt_succ_self i) before
  rw [if_pos more] at round
  have nextPos := walk.nextPos run
  have notOwned : ringPos exponent start.rxRingPos (i + 1) ≠ l.rxRingPos →
      (dmaIn log (ringWord l.rxRingBase
        (ringPos exponent start.rxRingPos (i + 1)) 2)).getLsbD 15 = false := by
    intro other
    rw [stored, walk.base]
    rcases Nat.lt_or_ge (i + 1) (2 ^ exponent) with short | whole
    · rw [walk.aheadWord memory run (Nat.lt_succ_self i) (Nat.lt_succ_self i) short]
      exact ends.resolve_left (Nat.ne_of_lt short)
    · -- the ring has wrapped around to a descriptor that the loop itself has given back
      have around : ringPos exponent start.rxRingPos (i + 1) =
          ringPos exponent start.rxRingPos 0 := by
        rw [show i + 1 = 2 ^ exponent by omega, run.ring.ringPos_wrap]
      have behind : 0 < i := by
        rcases Nat.eq_zero_or_pos i with rfl | behind
        · refine absurd ?_ other
          rw [around]
          exact walk.pos.symm
        · exact behind
      rw [around, storeBytes_kept _ _ _ (run.even i (Nat.lt_succ_self i)), walk.memory,
        scattered_given memory run (Nat.le_succ i) behind]
      · exact clearOwn_own _
      · intro offset short same
        exact run.offRing i (Nat.lt_succ_self i) offset (short.trans_le (rxChunk_le _ _ _ _ _)) 0
          (Nat.two_pow_pos _) 2 (by decide) same.symm
  obtain ⟨log', same, stops⟩ := receiveNext_overflow memory (l.filled (dmaIn l.log) log)
    (start.rxRoom mem exponent (i + 1)) nextPos (clearOwn_own _) notOwned
  refine ⟨_, Prog.loop_inr (round.trans stops), walk.settings, walk.pos, ?_, ?_⟩
  · rw [← walk.md1]
    rfl
  · exact same.trans (stored.trans (by rw [walk.memory]))

end Rounds

section Completion

variable {dmaIn : DmaIn} {cell : Addr → Addr} {mem : HostMemory} {exponent count last : Nat}
variable {frame : List Byte} {start l : Chip} {send : Bool}

/-- What the completion of a received frame leaves. -/
structure Received (dmaIn : DmaIn) (cell : Addr → Addr) (result : Nat) (l l' : Chip) : Prop where
  memory : dmaIn l'.log =
    storeWord cell (storeWord cell (dmaIn l.log) (ringWord l.rxRingBase l.rxRingPos 2) l.rxMd1)
      (ringWord l.rxRingBase l.rxRingPos 6) (BitVec.ofNat 16 result)
  pos : l'.rxRingPos = (l.rxRingPos + 1) &&& l.rxRingMask

theorem lanceRecvComplete_received (memory : ReadsBack dmaIn cell) (l : Chip) {result : Nat}
    (short : result ≤ 4095) :
    ∃ l', lanceRecvComplete result l = some ((), l') ∧ Received dmaIn cell result l l' := by
  have field : BitVec.ofInt 16 (result : Int) &&& 0x0FFF#16 = BitVec.ofNat 16 result := by
    apply BitVec.eq_of_toNat_eq
    rw [BitVec.ofInt_natCast, BitVec.toNat_and, BitVec.toNat_ofNat,
      Nat.mod_eq_of_lt (show result < 2 ^ 16 by omega)]
    exact (Nat.and_two_pow_sub_one_eq_mod result 12).trans (Nat.mod_eq_of_lt (by omega))
  obtain ⟨out, log, reports, same⟩ := lanceUpdateInterrupts_spec memory
    { l with
      csr0 := { l.csr0 with rint := true, intr := true }
      rxRingPos := (l.rxRingPos + 1) &&& l.rxRingMask
      log := .dmaOut (ringWord l.rxRingBase l.rxRingPos 6) (BitVec.ofNat 16 result) ::
        .dmaOut (ringWord l.rxRingBase l.rxRingPos 2) l.rxMd1 :: l.log }
  have completes : lanceRecvComplete result l = some ((), lanceUpdateInterrupts
      { l with
        csr0 := { l.csr0 with rint := true, intr := true }
        rxRingPos := (l.rxRingPos + 1) &&& l.rxRingMask
        log := .dmaOut (ringWord l.rxRingBase l.rxRingPos 6) (BitVec.ofNat 16 result) ::
          .dmaOut (ringWord l.rxRingBase l.rxRingPos 2) l.rxMd1 :: l.log }) := by
    rw [lanceRecvComplete, if_neg (by omega), if_neg (by omega), ← field]
    rfl
  refine ⟨_, completes, ?_, ?_⟩
  all_goals rw [reports]
  refine same.trans ?_
  rw [memory.written, memory.written]

/-- The chip behind the reading of the first descriptor, which gets STP. -/
def Chip.rxFetched (l : Chip) (mem : HostMemory) : Chip :=
  { l with
    rxMd1 := mem (ringWord l.rxRingBase l.rxRingPos 2) ||| 0x0200
    log := .dmaIn (ringWord l.rxRingBase l.rxRingPos 2) :: l.log }

/-- A frame that passes the filter goes into the descriptors. -/
theorem lanceReceive_begins (running : l.csr0.rxon) (passes : lanceAddressFilter l frame)
    (owned : (dmaIn l.log (ringWord l.rxRingBase l.rxRingPos 2)).getLsbD 15) :
    lanceReceive ⟨some dmaIn, send⟩ frame l =
      (do
        let offset ← Prog.loop (receiveRound dmaIn frame) (frame.length + 1) (l.rxSlot, 0)
        modify (checkFcs frame offset)
        pure (offset : Int) : LanceM Int) (l.rxFetched (dmaIn l.log)) := by
  have gate : ¬ (¬ (modeLoop l.mode && modeIntl l.mode) = true ∧ ¬ l.SelfAddressed frame ∧
      ¬ l.csr0.rxon = true) := fun closed => closed.2.2 running
  rw [lanceReceive, Prog.get_bind_run]
  simp only [gate, if_false, passes, not_true]
  refine (Prog.bind_eq_of_run rfl).trans ?_
  rw [Prog.modify_bind_run]
  simp only [owned, not_true, if_false]
  rfl

/-- A chip that takes frames from the wire, and a frame that it takes. -/
structure Receives (frame : List Byte) (l : Chip) : Prop where
  running : l.csr0.rxon
  wire : ¬ modeLoop l.mode
  passes : lanceAddressFilter l frame
  fcs : FcsPasses frame
  long : 60 ≤ frame.length
  short : frame.length ≤ 4095

theorem Receives.lanceRecv_run (receives : Receives frame l) {host : Host} {result : Int}
    {l₁ l₂ : Chip} (received : lanceReceive host frame l = some (result, l₁))
    (completed : lanceRecvComplete result l₁ = some ((), l₂)) :
    lanceRecv host frame l = some (if result < 0 then result else 0, l₂) := by
  have long := receives.long
  have external : ¬ (modeLoop l.mode && modeIntl l.mode) = true := by
    rw [Bool.and_eq_true]
    exact fun internal => receives.wire internal.1
  rw [lanceRecv, Prog.get_bind_run, if_neg (by omega), if_neg external,
    Prog.bind_eq_of_run received, Prog.bind_eq_of_run completed]
  rfl

/-- The descriptors behind a reception that has used `count` of them: OWN is cleared, STP set in
the first and `ending` in the last, whose count is `result`.  Nothing else has changed outside
the buffers. -/
structure Scattered (dmaIn : DmaIn) (cell : Addr → Addr) (exponent count : Nat) (ending : Half)
    (result : Nat) (l l' : Chip) : Prop where
  given : ∀ i < count,
    dmaIn l'.log (ringWord l.rxRingBase (ringPos exponent l.rxRingPos i) 2) =
      (l.rxFirst (dmaIn l.log) exponent i &&& 0x00FF#16) ||| (if i = 0 then 0x0200#16 else 0#16) |||
        (if i + 1 = count then ending else 0#16)
  counted : dmaIn l'.log (ringWord l.rxRingBase (ringPos exponent l.rxRingPos (count - 1)) 6) =
    BitVec.ofNat 16 result
  kept : ∀ a,
    (∀ i < count, cell a ≠ cell (ringWord l.rxRingBase (ringPos exponent l.rxRingPos i) 2)) →
    cell a ≠ cell (ringWord l.rxRingBase (ringPos exponent l.rxRingPos (count - 1)) 6) →
    (∀ i < count, ∀ offset < l.rxSize (dmaIn l.log) exponent i,
      cell a ≠ cell (wordAt (l.rxAddress (dmaIn l.log) exponent i) offset)) →
    dmaIn l'.log a = dmaIn l.log a
  pos : l'.rxRingPos.toNat = (l.rxRingPos.toNat + count) % 2 ^ exponent

/-- The memory behind the completion. -/
def Chip.completed (l : Chip) (cell : Addr → Addr) (mem : HostMemory) (exponent : Nat)
    (frame : List Byte) (last : Nat) (flags : Half) (result : Nat) : HostMemory :=
  storeWord cell
    (storeWord cell (l.scattered cell mem exponent frame (last + 1))
      (ringWord l.rxRingBase (ringPos exponent l.rxRingPos last) 2)
      (clearOwn (l.rxWord mem exponent last) ||| flags))
    (ringWord l.rxRingBase (ringPos exponent l.rxRingPos last) 6) (BitVec.ofNat 16 result)

theorem rxStored_completed (run : RxRun cell mem exponent (last + 1) start) (flags : Half)
    (result : Nat) :
    start.rxStored mem (start.completed cell mem exponent frame last flags result) exponent
        (last + 1) =
      start.rxStored mem (start.scattered cell mem exponent frame (last + 1)) exponent
        (last + 1) := by
  have within := run.within
  refine rxStored_congr fun i inside offset short => ?_
  rw [Chip.completed,
    storeWord_apart (run.offRing i inside offset short last (by omega) 6 (by decide)),
    storeWord_apart (run.offRing i inside offset short last (by omega) 2 (by decide))]

theorem clearOwn_rxWord (run : RxRun cell mem exponent count start) {i : Nat} (inside : i < count) :
    clearOwn (start.rxWord mem exponent i) =
      (start.rxFirst mem exponent i &&& 0x00FF#16) ||| (if i = 0 then 0x0200#16 else 0#16) := by
  have low : clearOwn (start.rxFirst mem exponent i) =
      start.rxFirst mem exponent i &&& 0x00FF#16 := by
    have parts : ~~~0x8000#16 = 0x7F00#16 ||| 0x00FF#16 := by decide
    rw [clearOwn, parts, BitVec.and_or_distrib_left, run.clear i inside, BitVec.zero_or]
  rw [Chip.rxWord]
  split
  · rw [clearOwn, BitVec.and_or_distrib_right]
    exact congrArg (· ||| 0x0200#16) low
  · rw [low, BitVec.or_zero]

theorem scattered_of_received (memory : ReadsBack dmaIn cell)
    (run : RxRun cell (dmaIn start.log) exponent (last + 1) start) {flags : Half} {result : Nat}
    {l' : Chip}
    (mem : dmaIn l'.log = start.completed cell (dmaIn start.log) exponent frame last flags result)
    (pos : l'.rxRingPos = ringPos exponent start.rxRingPos (last + 1)) :
    Scattered dmaIn cell exponent (last + 1) flags result start l' := by
  have within := run.within
  refine ⟨fun i inside => ?_, ?_, fun a offWords offCount offBuffers => ?_, ?_⟩
  · rw [mem, Chip.completed, storeWord_apart fun same =>
      absurd (memory.word_inj (by decide) (by decide) same).2 (by decide),
      ← clearOwn_rxWord run inside]
    by_cases ends : i = last
    · rw [ends, storeWord_same rfl, if_pos rfl]
    · rw [storeWord_apart, scattered_given memory run le_rfl inside, if_neg (by omega),
        BitVec.or_zero]
      exact fun same => ends (run.ring.ringPos_inj (by omega) (by omega)
        (memory.word_inj (by decide) (by decide) same).1)
  · rw [mem, Chip.completed, Nat.add_sub_cancel, storeWord_same rfl]
  · rw [Nat.add_sub_cancel] at offCount
    rw [mem, Chip.completed, storeWord_apart offCount,
      storeWord_apart (offWords last (Nat.lt_succ_self last))]
    exact scattered_kept run le_rfl offWords offBuffers
  · rw [pos]
    exact run.ring.ringPos_toNat _

theorem RxDone.received {flags : Half} {result : Nat} {l₁ l' : Chip}
    (ring : Ring exponent start.rxRingMask start.rxRingPos)
    (done : RxDone dmaIn cell mem exponent frame start last flags l₁)
    (received : Received dmaIn cell result l₁ l') :
    dmaIn l'.log = start.completed cell mem exponent frame last flags result ∧
      l'.rxRingPos = ringPos exponent start.rxRingPos (last + 1) := by
  have base : l₁.rxRingBase = start.rxRingBase := (congrArg Chip.rxRingBase done.settings :)
  have mask : l₁.rxRingMask = start.rxRingMask := (congrArg Chip.rxRingMask done.settings :)
  constructor
  · rw [received.memory, done.memory, done.md1, done.pos, base, Chip.completed, Chip.scattered,
      storeWord_storeWord]
  · rw [received.pos, done.pos, mask, ring.next]

theorem le_rxRoom (l : Chip) (mem : HostMemory) (exponent count : Nat) :
    count ≤ l.rxRoom mem exponent count := by
  induction count with
  | zero => exact le_rfl
  | succ count ih => exact Nat.add_le_add ih (rxSize_pos l mem exponent count)

theorem RxRun.walk_zero (memory : ReadsBack dmaIn cell)
    (run : RxRun cell (dmaIn l.log) exponent count l) :
    RxWalk dmaIn cell (dmaIn l.log) exponent frame l 0 (l.rxFetched (dmaIn l.log)) where
  settings := rfl
  pos := run.ring.ringPos_zero.symm
  md1 := by
    rw [Chip.rxWord, if_pos rfl, Chip.rxFirst, run.ring.ringPos_zero]
    rfl
  memory := memory.read _ _

/-- The frame is in the buffers of the run. -/
structure FrameStored (dmaIn : DmaIn) (cell : Addr → Addr) (exponent count : Nat)
    (frame : List Byte) (l l' : Chip) : Prop where
  stored : frame <+: l.rxStored (dmaIn l.log) (dmaIn l'.log) exponent count
  descriptors : Scattered dmaIn cell exponent count 0x0100 frame.length l l'

/-- The buffers of the run are full with the beginning of the frame; the last descriptor has ERR
and BUFF and no ENP. -/
structure FrameCut (dmaIn : DmaIn) (cell : Addr → Addr) (exponent count : Nat)
    (frame : List Byte) (l l' : Chip) : Prop where
  stored : l.rxStored (dmaIn l.log) (dmaIn l'.log) exponent count <+: frame
  descriptors : Scattered dmaIn cell exponent count 0x4400
    (l.rxRoom (dmaIn l.log) exponent count) l l'

/-- Nothing but MISS, ERR, RINT and INTR, the interrupt line, and the chip's copy of the
descriptor's first word has changed. -/
def FrameMissed (dmaIn : DmaIn) (l l' : Chip) : Prop :=
  ∃ md1 out log,
    l' = { l with
      csr0 := { l.csr0 with miss := true, err := true, rint := true, intr := true }
      rxMd1 := md1
      intrOutState := out
      log := log } ∧
    dmaIn log = dmaIn l.log

theorem lanceRecv_stores (memory : ReadsBack dmaIn cell) (receives : Receives frame l)
    (run : RxRun cell (dmaIn l.log) exponent (last + 1) l)
    (more : l.rxRoom (dmaIn l.log) exponent last < frame.length)
    (covers : frame.length ≤ l.rxRoom (dmaIn l.log) exponent (last + 1)) :
    ∃ l', lanceRecv ⟨some dmaIn, send⟩ frame l = some (0, l') ∧
      FrameStored dmaIn cell exponent (last + 1) frame l l' := by
  have owned := run.owned 0 run.nonempty
  rw [Chip.rxFirst, run.ring.ringPos_zero] at owned
  have enough := le_rxRoom l (dmaIn l.log) exponent last
  obtain ⟨l₁, walk, loops⟩ := run.reaches memory more last (run.walk_zero memory)
    (Nat.zero_add _) (frame.length + 1 - last)
  obtain ⟨l₂, ends, done⟩ := walk.covers memory run (Nat.lt_succ_self last) more covers
    (frame.length - 1 - last)
  have looped : Prog.loop (receiveRound dmaIn frame) (frame.length + 1) (l.rxSlot, 0)
      (l.rxFetched (dmaIn l.log)) = some (frame.length, l₂) := by
    rw [show frame.length + 1 - last = frame.length - 1 - last + 2 by omega] at loops
    rw [← ends, ← loops]
    congr 1
    omega
  obtain ⟨l', completed, received⟩ := lanceRecvComplete_received memory
    (checkFcs frame frame.length l₂) receives.short
  have whole : lanceReceive ⟨some dmaIn, send⟩ frame l =
      some ((frame.length : Int), checkFcs frame frame.length l₂) := by
    rw [lanceReceive_begins receives.running receives.passes owned, Prog.bind_eq_of_run looped]
    rfl
  have done' : RxDone dmaIn cell (dmaIn l.log) exponent frame l last 0x0100
      (checkFcs frame frame.length l₂) := by
    rw [checkFcs_of_passes receives.fcs]
    refine ⟨done.settings, done.pos, ?_, done.memory⟩
    change l₂.rxMd1 ||| 0x0100 = _
    rw [done.md1]
    exact congrArg (· ||| 0x0100#16) BitVec.or_zero
  obtain ⟨mem, pos⟩ := done'.received run.ring received
  refine ⟨l', ?_, ?_, scattered_of_received memory run mem pos⟩
  · exact receives.lanceRecv_run whole completed
  · rw [mem, rxStored_completed run]
    exact scattered_covers memory run receives.short more.le covers

theorem lanceRecv_cuts (memory : ReadsBack dmaIn cell) (receives : Receives frame l)
    (run : RxRun cell (dmaIn l.log) exponent (last + 1) l)
    (more : l.rxRoom (dmaIn l.log) exponent (last + 1) < frame.length)
    (ends : last + 1 = 2 ^ exponent ∨
      (l.rxFirst (dmaIn l.log) exponent (last + 1)).getLsbD 15 = false) :
    ∃ l', lanceRecv ⟨some dmaIn, send⟩ frame l = some (0, l') ∧
      FrameCut dmaIn cell exponent (last + 1) frame l l' := by
  have owned := run.owned 0 run.nonempty
  rw [Chip.rxFirst, run.ring.ringPos_zero] at owned
  have enough := le_rxRoom l (dmaIn l.log) exponent (last + 1)
  have before : l.rxRoom (dmaIn l.log) exponent last < frame.length :=
    (rxRoom_mono _ _ _ (Nat.le_succ last)).trans_lt more
  have short := receives.short
  obtain ⟨l₁, walk, loops⟩ := run.reaches memory before last (run.walk_zero memory)
    (Nat.zero_add _) (frame.length + 1 - last)
  obtain ⟨l₂, stops, done⟩ := walk.overflows memory run rfl more ends (frame.length - last)
  have looped : Prog.loop (receiveRound dmaIn frame) (frame.length + 1) (l.rxSlot, 0)
      (l.rxFetched (dmaIn l.log)) = some (l.rxRoom (dmaIn l.log) exponent (last + 1), l₂) := by
    rw [show frame.length + 1 - last = frame.length - last + 1 by omega] at loops
    rw [← stops, ← loops]
    congr 1
    omega
  obtain ⟨l', completed, received⟩ := lanceRecvComplete_received memory l₂
    (more.le.trans short)
  have whole : lanceReceive ⟨some dmaIn, send⟩ frame l =
      some ((l.rxRoom (dmaIn l.log) exponent (last + 1) : Int), l₂) := by
    rw [lanceReceive_begins receives.running receives.passes owned, Prog.bind_eq_of_run looped,
      Prog.modify_bind_run, checkFcs, if_neg more.ne]
    rfl
  obtain ⟨mem, pos⟩ := done.received run.ring received
  refine ⟨l', receives.lanceRecv_run whole completed, ?_,
    scattered_of_received memory run mem pos⟩
  rw [mem, rxStored_completed run, scattered_full memory run short le_rfl le_rfl more.le]
  exact List.take_prefix _ _

theorem lanceRecv_misses (memory : ReadsBack dmaIn cell) (receives : Receives frame l)
    (notOwned : (dmaIn l.log (ringWord l.rxRingBase l.rxRingPos 2)).getLsbD 15 = false) :
    ∃ l', lanceRecv ⟨some dmaIn, send⟩ frame l = some (-2, l') ∧ FrameMissed dmaIn l l' := by
  have gate : ¬ (¬ (modeLoop l.mode && modeIntl l.mode) = true ∧ ¬ l.SelfAddressed frame ∧
      ¬ l.csr0.rxon = true) := fun closed => closed.2.2 receives.running
  have whole : lanceReceive ⟨some dmaIn, send⟩ frame l =
      some (-2, { l with
        rxMd1 := dmaIn l.log (ringWord l.rxRingBase l.rxRingPos 2)
        log := .dmaIn (ringWord l.rxRingBase l.rxRingPos 2) :: l.log }) := by
    rw [lanceReceive, Prog.get_bind_run]
    simp only [gate, if_false, receives.passes, not_true]
    refine (Prog.bind_eq_of_run rfl).trans ?_
    rw [Prog.modify_bind_run, if_pos (by rw [notOwned]; decide)]
    rfl
  obtain ⟨out, log, reports, same⟩ := lanceUpdateInterrupts_spec memory
    { l with
      csr0 := { l.csr0 with miss := true, err := true, rint := true, intr := true }
      rxMd1 := dmaIn l.log (ringWord l.rxRingBase l.rxRingPos 2)
      log := .dmaIn (ringWord l.rxRingBase l.rxRingPos 2) :: l.log }
  refine ⟨_, receives.lanceRecv_run whole rfl, _, out, log, reports, ?_⟩
  exact same.trans (memory.read _ _)

/-- A frame is stored in the first buffers with room for it, or cut at the end of the run that
the chip owns, or missed.  A buffer without length counts as one of 64 bytes. -/
theorem lanceRecv_scatters (memory : ReadsBack dmaIn cell) (receives : Receives frame l)
    (ring : Ring exponent l.rxRingMask l.rxRingPos) :
    (∀ count, RxRun cell (dmaIn l.log) exponent count l →
      l.rxRoom (dmaIn l.log) exponent (count - 1) < frame.length →
      frame.length ≤ l.rxRoom (dmaIn l.log) exponent count →
      ∃ l', lanceRecv ⟨some dmaIn, send⟩ frame l = some (0, l') ∧
        FrameStored dmaIn cell exponent count frame l l') ∧
    (∀ count, RxRun cell (dmaIn l.log) exponent count l →
      l.rxRoom (dmaIn l.log) exponent count < frame.length →
      count = 2 ^ exponent ∨ ¬ (l.rxFirst (dmaIn l.log) exponent count).getLsbD 15 →
      ∃ l', lanceRecv ⟨some dmaIn, send⟩ frame l = some (0, l') ∧
        FrameCut dmaIn cell exponent count frame l l') ∧
    (¬ (l.rxFirst (dmaIn l.log) exponent 0).getLsbD 15 →
      ∃ l', lanceRecv ⟨some dmaIn, send⟩ frame l = some (-2, l') ∧ FrameMissed dmaIn l l') := by
  refine ⟨fun count run more covers => ?_, fun count run more ends => ?_, fun notOwned => ?_⟩
  · obtain ⟨last, rfl⟩ : ∃ last, count = last + 1 := ⟨count - 1, by have := run.nonempty; omega⟩
    exact lanceRecv_stores memory receives run more covers
  · obtain ⟨last, rfl⟩ : ∃ last, count = last + 1 := ⟨count - 1, by have := run.nonempty; omega⟩
    exact lanceRecv_cuts memory receives run more
      (ends.imp_right Bool.eq_false_of_not_eq_true)
  · rw [Chip.rxFirst, ring.ringPos_zero] at notOwned
    exact lanceRecv_misses memory receives (Bool.eq_false_of_not_eq_true notOwned)

/-- A ring of two descriptors that the chip owns; `md2` gives the length of the first buffer, and
the second has 64 bytes. -/
def rxPairMemory (md2 : Half) : HostMemory := fun addr =>
  if addr = 0 then 0x0100
  else if addr = 2 then 0x8000
  else if addr = 4 then md2
  else if addr = 8 then 0x0200
  else if addr = 10 then 0x8000
  else if addr = 12 then 0xFFC0
  else 0

/-- A running chip in front of them. -/
def rxPairChip : Chip :=
  { lanceInit .am79c90 with csr0 := Csr0.ofHalf 0x0022#16, rxRingMask := 0xFD#8 }

/-- A frame of 60 bytes, 56 of them zero. -/
def zeroFrame : List Byte :=
  List.replicate 56 0 ++ fcsBytes (lanceCrc32 (List.replicate 56 0))

theorem zeroFrame_receives : Receives zeroFrame rxPairChip where
  running := by decide
  wire := by decide
  passes := by decide
  fcs := fcsPasses_append _
  long := by decide
  short := by decide

theorem rxPair_run {md2 : Half} (sized : md2 = 0xFFE0#16 ∨ md2 = 0x0000#16) :
    RxRun id (rxPairMemory md2) 1 2 rxPairChip := by
  have address (i : Nat) (inside : i < 2) :
      (rxPairChip.rxAddress (rxPairMemory md2) 1 i).toNat = 0x100 * (i + 1) := by
    interval_cases i <;> rcases sized with rfl | rfl <;> decide
  have size (i : Nat) (inside : i < 2) : rxPairChip.rxSize (rxPairMemory md2) 1 i ≤ 64 := by
    interval_cases i <;> rcases sized with rfl | rfl <;> decide
  refine ⟨⟨by decide, .inl rfl, by decide⟩, by decide, by decide, ?_, ?_, ?_,
    fun i inside offset short j place word named same => ?_,
    fun i inside j inside' other offset short offset' short' same => ?_⟩
  any_goals rcases sized with rfl | rfl <;> decide
  · have small := named.small_even.1
    have here := size i inside
    have nats : (wordAt _ _).toNat = (ringWord _ _ _).toNat := congrArg BitVec.toNat same
    have pos : (ringPos 1 rxPairChip.rxRingPos j).toNat < 2 := by
      interval_cases j <;> decide
    rw [wordAt_toNat, ringWord_toNat _ _ small, address i inside,
      show rxPairChip.rxRingBase.toNat = 0 from rfl] at nats
    omega
  · have here := size i inside
    have there := size j inside'
    have nats : (wordAt _ _).toNat = (wordAt _ _).toNat := congrArg BitVec.toNat same
    rw [wordAt_toNat, wordAt_toNat, address i inside, address j inside'] at nats
    omega

theorem lanceRecv_scatters_pair :
    ∃ l', lanceRecv ⟨some (memoryDma id (rxPairMemory 0xFFE0#16)), true⟩ zeroFrame rxPairChip =
        some (0, l') ∧
      FrameStored (memoryDma id (rxPairMemory 0xFFE0#16)) id 1 2 zeroFrame rxPairChip l' :=
  (lanceRecv_scatters (l := rxPairChip) (plainDma_readsBack (rxPairMemory 0xFFE0#16))
    zeroFrame_receives (rxPair_run (.inl rfl)).ring).1 2 (rxPair_run (.inl rfl)) (by decide)
    (by decide)

/-- A first buffer without length, and a second with room for the frame: the frame goes into the
first, and the second descriptor stays with the chip. -/
theorem empty_buffer_takes_frame :
    Receives zeroFrame rxPairChip ∧ RxRun id (rxPairMemory 0) 1 2 rxPairChip ∧
      lanceGetBufLength .am79c90 (rxPairMemory 0 4) = 0 ∧
      lanceGetBufLength .am79c90 (rxPairMemory 0 12) = 64 ∧
      (lanceRecv ⟨some (memoryDma id (rxPairMemory 0)), true⟩ zeroFrame rxPairChip).map
          (fun result => (result.1, result.2.rxRingPos,
            memoryDma id (rxPairMemory 0) result.2.log 10)) =
        some (0, 1#8, 0x8000#16) :=
  ⟨zeroFrame_receives, rxPair_run (.inr rfl), by decide, by decide, by decide +kernel⟩

end Completion

end Ncd15.Lance
