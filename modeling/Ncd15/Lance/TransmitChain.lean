import Ncd15.Lance.Transmit

/-!
# A chain of transmit descriptors

One poll sends the frame that a chain of descriptors describes, and gives the descriptors back.
-/

namespace Ncd15.Lance

open Ncd15.Library

section Chains

/-- The first word of the `i`-th descriptor from the chip's on. -/
def Chip.txFirst (l : Chip) (mem : HostMemory) (exponent i : Nat) : Half :=
  mem (ringWord l.txRingBase (ringPos exponent l.txRingPos i) 2)

/-- The length of its buffer. -/
def Chip.txSize (l : Chip) (mem : HostMemory) (exponent i : Nat) : Nat :=
  txLength l.variant mem l.txRingBase (ringPos exponent l.txRingPos i)

/-- The address of its buffer. -/
def Chip.txAddress (l : Chip) (mem : HostMemory) (exponent i : Nat) : Addr :=
  bufAddress (l.txFirst mem exponent i)
    (mem (ringAddress l.txRingBase (ringPos exponent l.txRingPos i)))

/-- The bytes of the first `count` buffers. -/
def Chip.payload (l : Chip) (mem : HostMemory) (exponent count : Nat) : List Byte :=
  (List.range count).flatMap fun i =>
    memBytes (l.csr3.getLsbD 2) mem (l.txAddress mem exponent i) (l.txSize mem exponent i)

/-- `count` descriptors that the chip owns, from one with STP to the first with ENP. -/
structure TxChain (cell : Addr → Addr) (mem : HostMemory) (exponent count : Nat) (l : Chip) :
    Prop where
  ring : Ring exponent l.txRingMask l.txRingPos
  nonempty : 0 < count
  within : count ≤ 2 ^ exponent
  owned : ∀ i < count, (l.txFirst mem exponent i).getLsbD 15
  starts : (l.txFirst mem exponent 0).getLsbD 9
  ends : ∀ i < count, (l.txFirst mem exponent i).getLsbD 8 = true ↔ i + 1 = count
  long : ∀ i < count, 1 ≤ l.txSize mem exponent i
  short : (l.payload mem exponent count).length ≤ 4092
  apart : ∀ i < count, ∀ offset < l.txSize mem exponent i, ∀ j < count,
    cell (wordAt (l.txAddress mem exponent i) offset) ≠
      cell (ringWord l.txRingBase (ringPos exponent l.txRingPos j) 2)
  foreign : ¬ l.SelfAddressed (l.payload mem exponent count)

variable {dmaIn : DmaIn} {cell : Addr → Addr} {exponent count : Nat} {start : Chip}

theorem cleared_kept {mem : HostMemory} {a : Addr}
    (apart : ∀ j < count,
      cell a ≠ cell (ringWord start.txRingBase (ringPos exponent start.txRingPos j) 2)) :
    start.cleared cell mem exponent count a = mem a := by
  induction count with
  | zero => rfl
  | succ count ih =>
      rw [Chip.cleared, storeWord_apart (apart count (by omega)),
        ih fun j before => apart j (by omega)]

theorem payload_succ (l : Chip) (mem : HostMemory) (exponent count : Nat) :
    l.payload mem exponent (count + 1) = l.payload mem exponent count ++
      memBytes (l.csr3.getLsbD 2) mem (l.txAddress mem exponent count)
        (l.txSize mem exponent count) := by
  simp [Chip.payload, List.range_succ]

theorem payload_length_le (l : Chip) (mem : HostMemory) (exponent : Nat) {i : Nat}
    (before : i ≤ count) :
    (l.payload mem exponent i).length ≤ (l.payload mem exponent count).length := by
  induction count, before using Nat.le_induction with
  | base => exact le_rfl
  | succ count _ ih =>
      rw [payload_succ, List.length_append]
      omega

theorem txWord_eq {mem : HostMemory} (current : start.txMd1 = start.txFirst mem exponent 0)
    (i : Nat) : start.txWord mem exponent i = start.txFirst mem exponent i := by
  rw [Chip.txWord]
  split
  case isTrue first => rw [current, first]
  case isFalse => rfl

variable {i last : Nat} {l : Chip}

/-- The bytes that a round of the walk gathers are those of its descriptor's buffer. -/
theorem TxChain.bytes (memory : ReadsBack dmaIn cell)
    (chain : TxChain cell (dmaIn start.log) exponent count start)
    (current : start.txMd1 = start.txFirst (dmaIn start.log) exponent 0)
    (walk : TxWalk dmaIn cell exponent start i l) (inside : i < count) :
    start.payload (dmaIn start.log) exponent i ++
        txBytes (l.csr3.getLsbD 2) (dmaIn l.log) l.txRingBase l.txRingPos l.txMd1
          (min (txLength l.variant (dmaIn l.log) l.txRingBase l.txRingPos)
            (4096 - (start.payload (dmaIn start.log) exponent i).length)) =
      start.payload (dmaIn start.log) exponent (i + 1) := by
  have whole : (start.payload (dmaIn start.log) exponent i).length +
      start.txSize (dmaIn start.log) exponent i ≤ 4092 := by
    have fits := (payload_length_le start (dmaIn start.log) exponent inside).trans chain.short
    rwa [payload_succ, List.length_append, memBytes_length] at fits
  have address : bufAddress l.txMd1 (dmaIn l.log (ringAddress l.txRingBase l.txRingPos)) =
      start.txAddress (dmaIn start.log) exponent i := by
    rw [walk.md1, walk.memory, walk.base, walk.pos, ← ringWord_zero,
      cleared_other memory _ _ _ (by decide) (by decide), ringWord_zero, txWord_eq current,
      Chip.txAddress]
  have bswap : l.csr3 = start.csr3 := (congrArg Chip.csr3 walk.settings :)
  rw [payload_succ, txBytes, address, bswap, walk.length memory]
  change _ ++ memBytes _ _ _ (min (start.txSize (dmaIn start.log) exponent i) _) = _
  rw [Nat.min_eq_left (by omega)]
  congr 1
  refine memBytes_congr fun offset short => ?_
  rw [walk.memory]
  exact cleared_kept fun j before => chain.apart i inside offset short j (by omega)

/-- The loop of `lance_transmit` is over, with the last descriptor not written back. -/
structure TxGathered (dmaIn : DmaIn) (cell : Addr → Addr) (exponent last : Nat) (start l : Chip) :
    Prop where
  settings : l.settings = start.settings
  pos : l.txRingPos = ringPos exponent start.txRingPos last
  md1 : l.txMd1 = clearOwn (start.txWord (dmaIn start.log) exponent last)
  memory : dmaIn l.log = start.cleared cell (dmaIn start.log) exponent last

/-- The rounds of the loop gather the payload. -/
theorem TxChain.loop (memory : ReadsBack dmaIn cell)
    (chain : TxChain cell (dmaIn start.log) exponent (last + 1) start)
    (current : start.txMd1 = start.txFirst (dmaIn start.log) exponent 0) (left : Nat)
    (walk : TxWalk dmaIn cell exponent start i l) (rest : i + left = last) {rounds : Nat}
    (enough : left < rounds) :
    ∃ l', Prog.loop (transmitRound dmaIn) rounds (ringAddress l.txRingBase l.txRingPos,
        start.payload (dmaIn start.log) exponent i) l =
          some (some (start.payload (dmaIn start.log) exponent (last + 1)), l') ∧
      TxGathered dmaIn cell exponent last start l' := by
  have within := chain.within
  induction left generalizing i l rounds with
  | zero =>
      obtain ⟨rounds, rfl⟩ : ∃ n, rounds = n + 1 := ⟨rounds - 1, by omega⟩
      obtain rfl : i = last := rest
      have long := chain.long i (by omega)
      obtain ⟨log, same, round⟩ := transmitRound_gathers memory l
        (start.payload (dmaIn start.log) exponent i) (by
          rw [walk.length memory]
          exact Nat.one_le_iff_ne_zero.mp long)
      have enp : l.txMd1.getLsbD 8 = true := by
        rw [walk.md1, txWord_eq current]
        exact (chain.ends i (by omega)).mpr rfl
      simp only [enp, not_true, if_false] at round
      rw [chain.bytes memory current walk (by omega)] at round
      refine ⟨_, Prog.loop_inr round, walk.settings, walk.pos, ?_, same.trans walk.memory⟩
      exact congrArg clearOwn walk.md1
  | succ left ih =>
      obtain ⟨rounds, rfl⟩ : ∃ n, rounds = n + 1 := ⟨rounds - 1, by omega⟩
      have long := chain.long i (by omega)
      have more : l.txMd1.getLsbD 8 = false := by
        rw [walk.md1, txWord_eq current]
        apply Bool.eq_false_of_not_eq_true
        rw [chain.ends i (by omega)]
        omega
      obtain ⟨l', round, walk'⟩ := walk.next memory chain.ring
        (start.payload (dmaIn start.log) exponent i) (by omega)
        (by
          rw [walk.length memory]
          exact Nat.one_le_iff_ne_zero.mp long) more
        (by
          rw [txWord_eq current]
          exact chain.owned (i + 1) (by omega))
      rw [chain.bytes memory current walk (by omega)] at round
      obtain ⟨l'', run, gathered⟩ := ih walk' (by omega) (show left < rounds by omega)
      exact ⟨l'', (Prog.loop_inl round).trans run, gathered⟩

end Chains

section Polls

variable {dmaIn : DmaIn} {cell : Addr → Addr} {exponent count last : Nat} {start l : Chip}

/-- What the completion of a sent frame leaves. -/
structure Completed (dmaIn : DmaIn) (cell : Addr → Addr) (l l' : Chip) : Prop where
  frames : l'.frames = l.frames
  memory : dmaIn l'.log =
    storeWord cell (dmaIn l.log) (ringWord l.txRingBase l.txRingPos 2) l.txMd1
  pos : l'.txRingPos = (l.txRingPos + 1) &&& l.txRingMask
  tint : l'.csr0.tint = true
  hairpin : l'.lbHairpin = l.lbHairpin
  physicalAddr : l'.physicalAddr = l.physicalAddr

theorem lanceSendComplete_sent (memory : ReadsBack dmaIn cell) (l : Chip) {result : Int}
    (sent : 0 < result) :
    ∃ l', lanceSendComplete result l = some ((), l') ∧ Completed dmaIn cell l l' := by
  have marked (slot : Addr) : markResult slot result l = some ((), l) := by
    rw [markResult, Prog.get_bind_run, if_neg (by omega), if_neg (by omega), if_neg (by omega)]
    rfl
  obtain ⟨out, log, reports, same⟩ := lanceUpdateInterrupts_spec memory
    { advanceTx { l with
        log := .dmaOut (ringWord l.txRingBase l.txRingPos 2) l.txMd1 :: l.log } with
      csr0 := { l.csr0 with tint := true, intr := true } }
  obtain ⟨⟨⟩, l', run⟩ := lanceSendComplete_total result l
  have ends : l' = { lanceUpdateInterrupts
      { advanceTx { l with
          log := .dmaOut (ringWord l.txRingBase l.txRingPos 2) l.txMd1 :: l.log } with
        csr0 := { l.csr0 with tint := true, intr := true } } with txPollCounter := 1 } := by
    rw [lanceSendComplete, Prog.get_bind_run, Prog.bind_eq_of_run (marked _)] at run
    exact (Prod.mk.inj (Option.some.inj run)).2.symm
  refine ⟨l', run, lanceSendComplete_frames result _ _ _ run, ?_, ?_, ?_, ?_, ?_⟩
  all_goals rw [ends, reports]
  · exact same.trans (memory.written _ _ _)
  all_goals rfl

/-- A frame for another station goes out once and is not looped back. -/
theorem transmitExternal_sent (memory : ReadsBack dmaIn cell) (l : Chip) {frame : List Byte}
    (long : 0 < frame.length) (foreign : 12 ≤ frame.length → ¬ l.SelfAddressed frame) :
    ∃ l', transmitExternal ⟨some dmaIn, true⟩ frame l = some ((), l') ∧
      Completed dmaIn cell { l with log := .send frame :: l.log } l' := by
  obtain ⟨l', run, completed⟩ := lanceSendComplete_sent memory
    { l with log := .send frame :: l.log } (Int.natCast_pos.mpr long)
  have other : ¬ (12 ≤ frame.length ∧ l'.SelfAddressed frame ∧ frame.length ≤ 100) := by
    rintro ⟨enough, self, -⟩
    refine foreign enough ⟨self.1, ?_⟩
    rw [self.2, completed.physicalAddr]
  refine ⟨l', ?_, completed⟩
  rw [transmitExternal, Prog.modify_bind_run]
  refine (Prog.bind_eq_of_run run).trans ?_
  change some ((), if _ then _ else l') = _
  rw [if_neg other]

/-- Outside loopback mode the frame goes to the host as it is stored. -/
theorem transmitFrame_external {host : Host} {l : Chip} (wire : ¬ modeLoop l.mode)
    (appendFcs : Bool) (buf : List Byte) :
    transmitFrame host appendFcs buf l =
      transmitExternal host (framed appendFcs buf) (babble buf l) := by
  have kept : (babble buf l).mode = l.mode := by
    unfold babble
    split <;> rfl
  rw [transmitFrame, Prog.modify_bind_run, Prog.get_bind_run, kept, if_neg wire]
  rfl

/-- The frame check sequence does not change the destination. -/
theorem framed_foreign {l : Chip} {buf : List Byte} (foreign : ¬ l.SelfAddressed buf)
    (appendFcs : Bool) (long : 12 ≤ (framed appendFcs buf).length) :
    ¬ l.SelfAddressed (framed appendFcs buf) := by
  rw [framed_length] at long
  have long' : 6 ≤ buf.length := by
    split at long <;> omega
  have destination : (framed appendFcs buf).take 6 = buf.take 6 := by
    cases appendFcs
    · rfl
    · exact List.take_append_of_le_length long'
  rintro ⟨-, self⟩
  exact foreign ⟨long', destination ▸ self⟩

/-- What one poll does with the chain: its frame is sent once, OWN is cleared in its descriptors
and nothing else in memory changes, and the position moves behind it. -/
structure ChainSent (dmaIn : DmaIn) (cell : Addr → Addr) (exponent count : Nat) (l l' : Chip) :
    Prop where
  sent : l'.frames.1 = framed
    (¬ modeDtcr l.mode ∨ (l.txFirst (dmaIn l.log) exponent 0).getLsbD 13)
    (l.payload (dmaIn l.log) exponent count) :: l.frames.1
  cleared : ∀ i < count,
    dmaIn l'.log (ringWord l.txRingBase (ringPos exponent l.txRingPos i) 2) =
      l.txFirst (dmaIn l.log) exponent i &&& ~~~0x8000#16
  kept : ∀ a, (∀ i < count,
      cell a ≠ cell (ringWord l.txRingBase (ringPos exponent l.txRingPos i) 2)) →
    dmaIn l'.log a = dmaIn l.log a
  pos : l'.txRingPos.toNat = (l.txRingPos.toNat + count) % 2 ^ exponent
  tint : l'.csr0.tint = true

/-- The chip behind the polling of its descriptor. -/
def Chip.polled (l : Chip) (dmaIn : DmaIn) : Chip :=
  { l with
    csr0 := { l.csr0 with tdmd := false }
    txMd1 := dmaIn l.log (ringWord l.txRingBase l.txRingPos 2)
    log := .dmaIn (ringWord l.txRingBase l.txRingPos 2) :: l.log }

theorem TxChain.lanceTransmit_run (memory : ReadsBack dmaIn cell)
    (chain : TxChain cell (dmaIn start.log) exponent (last + 1) start)
    (current : start.txMd1 = start.txFirst (dmaIn start.log) exponent 0)
    (newer : start.variant = .am79c90) (wire : ¬ modeLoop start.mode) {rounds : Nat}
    (enough : last < rounds) :
    ∃ l', lanceTransmit ⟨some dmaIn, true⟩ dmaIn rounds start = some ((), l') ∧
      l'.frames = (framed start.appendsFcs
        (start.payload (dmaIn start.log) exponent (last + 1)) :: start.frames.1,
          start.frames.2) ∧
      dmaIn l'.log = start.cleared cell (dmaIn start.log) exponent (last + 1) ∧
      l'.txRingPos = ringPos exponent start.txRingPos (last + 1) ∧
      l'.csr0.tint = true := by
  have begins : start.beforeLoop = start := if_pos newer
  obtain ⟨l₁, run, gathered⟩ := chain.loop memory current last (.zero chain.ring)
    (Nat.zero_add _) enough
  rw [show start.payload (dmaIn start.log) exponent 0 = [] from rfl] at run
  have whole := lanceTransmit_eq ⟨some dmaIn, true⟩ dmaIn rounds start
  rw [begins, Prog.bind_eq_of_run run] at whole
  have framesKept : l₁.frames = start.frames :=
    Keeps.loop (transmitRound_frames dmaIn) _ _ _ _ _ run
  have mode : l₁.mode = start.mode := (congrArg Chip.mode gathered.settings :)
  have physicalAddr : l₁.physicalAddr = start.physicalAddr :=
    (congrArg Chip.physicalAddr gathered.settings :)
  have base : l₁.txRingBase = start.txRingBase :=
    (congrArg Chip.txRingBase gathered.settings :)
  have mask : l₁.txRingMask = start.txRingMask :=
    (congrArg Chip.txRingMask gathered.settings :)
  generalize payload : start.payload (dmaIn start.log) exponent (last + 1) = buf at *
  have babbled : babble buf l₁ = { l₁ with csr0 := (babble buf l₁).csr0 } := by
    unfold babble
    split <;> rfl
  have long : 0 < (framed start.appendsFcs buf).length := by
    have first := chain.long last (Nat.lt_succ_self last)
    have length := congrArg List.length payload
    rw [payload_succ, List.length_append, memBytes_length] at length
    rw [framed_length]
    omega
  have foreign : 12 ≤ (framed start.appendsFcs buf).length →
      ¬ (babble buf l₁).SelfAddressed (framed start.appendsFcs buf) := by
    rw [babbled]
    intro enough
    have other := framed_foreign (payload ▸ chain.foreign) start.appendsFcs enough
    rwa [Chip.SelfAddressed, ← physicalAddr] at other
  obtain ⟨l', rest, completed⟩ := transmitExternal_sent memory (babble buf l₁) long foreign
  refine ⟨l', ?_, ?_, ?_, ?_, completed.tint⟩
  · rw [whole]
    exact (transmitFrame_external (by rw [mode]; exact wire) _ _).trans rest
  · rw [completed.frames, babbled, ← framesKept]
    rfl
  · rw [completed.memory, babbled, memory.sent, Chip.cleared, ← gathered.memory, ← base,
      ← gathered.pos, ← gathered.md1]
  · rw [completed.pos, babbled]
    change (l₁.txRingPos + 1) &&& l₁.txRingMask = _
    rw [gathered.pos, mask, chain.ring.next]

/-- A poll that finds an owned descriptor with STP transmits from it. -/
theorem pollRing_transmits (l : Chip) (running : l.csr0.txon)
    (owned : (dmaIn l.log (ringWord l.txRingBase l.txRingPos 2)).getLsbD 15)
    (starts : (dmaIn l.log (ringWord l.txRingBase l.txRingPos 2)).getLsbD 9) (rounds : Nat) :
    pollRing ⟨some dmaIn, true⟩ rounds l =
      lanceTransmit ⟨some dmaIn, true⟩ dmaIn rounds (l.polled dmaIn) := by
  rw [pollRing, Prog.get_bind_run, if_pos running, Prog.modify_bind_run]
  refine (Prog.bind_eq_of_run rfl).trans ?_
  rw [Prog.modify_bind_run, if_pos owned, if_neg (not_not.mpr starts)]
  rfl

/-- One poll of a running chip sends exactly the chain at its position. -/
theorem lanceTransmitPoll_sends (memory : ReadsBack dmaIn cell) (newer : l.variant = .am79c90)
    (running : l.csr0.txon) (wire : ¬ modeLoop l.mode) (idle : l.lbBuf = [])
    (chain : TxChain cell (dmaIn l.log) exponent count l) {rounds : Nat}
    (enough : count ≤ rounds) :
    ∃ l', lanceTransmitPoll ⟨some dmaIn, true⟩ rounds l = some ((), l') ∧
      ChainSent dmaIn cell exponent count l l' := by
  obtain ⟨last, rfl⟩ : ∃ last, count = last + 1 := ⟨count - 1, by have := chain.nonempty; omega⟩
  have same : dmaIn (l.polled dmaIn).log = dmaIn l.log := memory.read _ _
  have here : l.txFirst (dmaIn l.log) exponent 0 =
      dmaIn l.log (ringWord l.txRingBase l.txRingPos 2) := by
    rw [Chip.txFirst, chain.ring.ringPos_zero]
  have chain' : TxChain cell (dmaIn (l.polled dmaIn).log) exponent (last + 1)
      (l.polled dmaIn) := by
    rw [same]
    exact ⟨chain.ring, chain.nonempty, chain.within, chain.owned, chain.starts, chain.ends,
      chain.long, chain.short, chain.apart, chain.foreign⟩
  obtain ⟨l', run, frames, mem, pos, tint⟩ := chain'.lanceTransmit_run memory
    (by rw [same]; exact here.symm) newer wire enough
  rw [same] at frames mem
  have owned := chain.owned 0 chain.nonempty
  have starts := chain.starts
  rw [here] at owned starts
  have looped : l'.lbBuf = [] := (congrArg Prod.snd frames).trans idle
  refine ⟨l', ?_, ?_, ?_, ?_, ?_, tint⟩
  · refine (Prog.bind_eq_of_run ((pollRing_transmits l running owned starts rounds).trans
      run)).trans ?_
    rw [checkLoopback, Prog.get_bind_run, if_neg fun pending => pending.1 looped]
    rfl
  · have appends : (l.polled dmaIn).appendsFcs = decide (¬ modeDtcr l.mode ∨
        (dmaIn l.log (ringWord l.txRingBase l.txRingPos 2)).getLsbD 13) := by
      simp [Chip.appendsFcs, Chip.polled, newer]
    rw [frames, here, ← appends]
    rfl
  · intro i inside
    rw [mem]
    refine (cleared_behind memory chain'.ring _ inside chain.within).trans ?_
    exact congrArg clearOwn (txWord_eq here.symm i)
  · intro a apart
    rw [mem]
    exact @cleared_kept _ _ _ (l.polled dmaIn) _ _ apart
  · rw [pos]
    exact chain.ring.ringPos_toNat _

/-- A ring of two descriptors that share a frame of four bytes, the first at an odd address. -/
def pairMemory : HostMemory := fun addr =>
  if addr = 0 then 0x0101
  else if addr = 2 then 0x8200
  else if addr = 4 then 0xFFFD
  else if addr = 8 then 0x0200
  else if addr = 10 then 0x8100
  else if addr = 12 then 0xFFFF
  else 0x1234

/-- A running chip in front of them. -/
def pairChip : Chip :=
  { lanceInit .am79c90 with csr0 := Csr0.ofHalf 0x0012#16, txRingMask := 0xFD#8 }

theorem pairChip_chain : TxChain id pairMemory 1 2 pairChip where
  ring := ⟨by decide, .inl rfl, by decide⟩
  nonempty := by decide
  within := by decide
  owned := by decide
  starts := by decide
  ends := by decide
  long := by decide
  short := by decide
  apart := by decide
  foreign := by decide

theorem lanceTransmitPoll_sends_pair :
    ∃ l', lanceTransmitPoll ⟨some (memoryDma id pairMemory), true⟩ 2 pairChip = some ((), l') ∧
      ChainSent (memoryDma id pairMemory) id 1 2 pairChip l' :=
  lanceTransmitPoll_sends (l := pairChip) (plainDma_readsBack pairMemory) rfl (by decide)
    (by decide)
    rfl pairChip_chain le_rfl

end Polls

end Ncd15.Lance
