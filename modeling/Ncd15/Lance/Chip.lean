import Ncd15.Library.Prog
import Mathlib.Logic.Function.Iterate

/-!
# The LANCE Ethernet controller

The registers and the receive and transmit paths of `lance.c`.  The host's
callbacks are events in a log; the DMA callback answers from the log, so that
it may be a memory, a device or anything else.
-/

namespace Ncd15.Lance

open Ncd15.Library

abbrev Byte := BitVec 8

abbrev Half := BitVec 16

abbrev Addr := BitVec 32

section Registers

/-- `enum lance_variant`. -/
inductive Variant
  | am7990
  | am79c90
  deriving DecidableEq, Repr

/-- The bits of CSR0. -/
structure Csr0 where
  init : Bool
  strt : Bool
  stop : Bool
  tdmd : Bool
  txon : Bool
  rxon : Bool
  inea : Bool
  intr : Bool
  idon : Bool
  tint : Bool
  rint : Bool
  merr : Bool
  miss : Bool
  cerr : Bool
  babl : Bool
  err : Bool
  deriving DecidableEq, Repr

/-- The bits of a word written to CSR0. -/
def Csr0.ofHalf (data : Half) : Csr0 where
  init := data.getLsbD 0
  strt := data.getLsbD 1
  stop := data.getLsbD 2
  tdmd := data.getLsbD 3
  txon := data.getLsbD 4
  rxon := data.getLsbD 5
  inea := data.getLsbD 6
  intr := data.getLsbD 7
  idon := data.getLsbD 8
  tint := data.getLsbD 9
  rint := data.getLsbD 10
  merr := data.getLsbD 11
  miss := data.getLsbD 12
  cerr := data.getLsbD 13
  babl := data.getLsbD 14
  err := data.getLsbD 15

/-- CSR0 as it is read. -/
def Csr0.toHalf (c : Csr0) : Half :=
  BitVec.ofBoolListLE [c.init, c.strt, c.stop, c.tdmd, c.txon, c.rxon, c.inea, c.intr,
    c.idon, c.tint, c.rint, c.merr, c.miss, c.cerr, c.babl, c.err]

/-- `LANCE_CSR0_STOP` alone. -/
def Csr0.stopped : Csr0 := Csr0.ofHalf 0x0004#16

/-- The bits of the mode word. -/
def modeDrx (mode : Half) : Bool := mode.getLsbD 0

def modeDtx (mode : Half) : Bool := mode.getLsbD 1

def modeLoop (mode : Half) : Bool := mode.getLsbD 2

def modeDtcr (mode : Half) : Bool := mode.getLsbD 3

def modeColl (mode : Half) : Bool := mode.getLsbD 4

def modeIntl (mode : Half) : Bool := mode.getLsbD 6

def modeProm (mode : Half) : Bool := mode.getLsbD 15

inductive Event
  | dmaIn (addr : Addr)
  | dmaOut (addr : Addr) (data : Half)
  | intr (state : Bool)
  | send (frame : List Byte)
  deriving DecidableEq, Repr

/-- `lance_t`, with the static counter of `lance_tick` and the calls of the
callbacks so far, the last one first.  `lb_buf` is as long as `lb_length` says. -/
structure Chip where
  variant : Variant
  rap : BitVec 2
  csr0 : Csr0
  csr1 : Half
  csr2 : Half
  csr3 : Half
  mode : Half
  logicalAddrFilter : BitVec 64
  physicalAddr : Vector Byte 6
  rxRingBase : Addr
  rxRingMask : Byte
  rxRingPos : Byte
  rxMd0 : Half
  rxMd1 : Half
  rxMd2 : Half
  txRingBase : Addr
  txRingMask : Byte
  txRingPos : Byte
  txMd0 : Half
  txMd1 : Half
  txMd2 : Half
  txMd3 : Half
  intrOutState : Bool
  idon : Bool
  lbBuf : List Byte
  lbHairpin : Bool
  txPollCounter : Int
  initDelay : Int
  log : List Event
  deriving DecidableEq

/-- Programs of the chip. -/
abbrev LanceM (α : Type) := Prog Chip α

/-- `dma_in_cb`, given the calls before it. -/
abbrev DmaIn := List Event → Addr → Half

/-- What the host has wired: both DMA callbacks or none, and `send_cb`. -/
structure Host where
  dma : Option DmaIn
  send : Bool

def lanceUpdateInterrupts (l : Chip) : Chip :=
  let newState := if l.csr0.inea then !l.csr0.intr else true
  if newState ≠ l.intrOutState then
    { l with intrOutState := newState, log := .intr newState :: l.log }
  else l

def lanceReset (l : Chip) : Chip :=
  lanceUpdateInterrupts
    { l with
      rap := 0
      csr0 := Csr0.stopped
      csr1 := 0
      csr2 := 0
      csr3 := 0
      mode := 0
      lbBuf := []
      idon := false
      txPollCounter := 19200 }

/-- `lance_init` up to its call of `lance_reset`. -/
def lanceBlank (variant : Variant) : Chip where
  variant := variant
  rap := 0
  csr0 := Csr0.ofHalf 0
  csr1 := 0
  csr2 := 0
  csr3 := 0
  mode := 0
  logicalAddrFilter := 0
  physicalAddr := Vector.replicate 6 0
  rxRingBase := 0
  rxRingMask := 0
  rxRingPos := 0
  rxMd0 := 0
  rxMd1 := 0
  rxMd2 := 0
  txRingBase := 0
  txRingMask := 0
  txRingPos := 0
  txMd0 := 0
  txMd1 := 0
  txMd2 := 0
  txMd3 := 0
  intrOutState := true
  idon := false
  lbBuf := []
  lbHairpin := false
  txPollCounter := 0
  initDelay := 500
  log := []

def lanceInit (variant : Variant) : Chip := lanceReset (lanceBlank variant)

/-- `lance_regs_r`; offset 0 is RDP, any other RAP. -/
def lanceRegsR (l : Chip) (offset : Int) : Half :=
  if offset = 0 then
    if l.rap ≠ 0 ∧ ¬ l.csr0.stop then 0xFFFF#16
    else if l.rap = 0 then l.csr0.toHalf
    else if l.rap = 1 then l.csr1
    else if l.rap = 2 then l.csr2
    else l.csr3
  else l.rap.setWidth 16

end Registers

section Dma

def lowByte (w : Half) : Byte := w.setWidth 8

def highByte (w : Half) : Byte := (w >>> 8).setWidth 8

def dmaInWord (dmaIn : DmaIn) (addr : Addr) : LanceM Half := fun l =>
  some (dmaIn l.log addr, { l with log := .dmaIn addr :: l.log })

def dmaOutWord (addr : Addr) (data : Half) : LanceM Unit := fun l =>
  some ((), { l with log := .dmaOut addr data :: l.log })

def readWords (dmaIn : DmaIn) (addr : Addr) : Nat → LanceM (List Half)
  | 0 => pure []
  | count + 1 => do
      let word ← dmaInWord dmaIn addr
      let rest ← readWords dmaIn (addr + 2) count
      pure (word :: rest)

/-- The loop of `lance_dma_in_block` and its trailing byte. -/
def dmaInPairs (dmaIn : DmaIn) (bswap : Bool) : Nat → Addr → LanceM (List Byte)
  | 0, _ => pure []
  | 1, addr => do
      let w ← dmaInWord dmaIn addr
      pure [if bswap then highByte w else lowByte w]
  | length + 2, addr => do
      let w ← dmaInWord dmaIn addr
      let rest ← dmaInPairs dmaIn bswap length (addr + 2)
      pure (if bswap then highByte w :: lowByte w :: rest else lowByte w :: highByte w :: rest)

def lanceDmaInBlock (dmaIn : DmaIn) (addr : Addr) (length : Nat) : LanceM (List Byte) := do
  let bswap := (← get).csr3.getLsbD 2
  if addr.getLsbD 0 then
    let w ← dmaInWord dmaIn (addr &&& ~~~1#32)
    let rest ← dmaInPairs dmaIn bswap (length - 1) (addr + 1)
    pure ((if bswap then lowByte w else highByte w) :: rest)
  else dmaInPairs dmaIn bswap length addr

/-- The loop of `lance_dma_out_block` and its trailing byte. -/
def dmaOutPairs (bswap : Bool) : List Byte → Addr → LanceM Unit
  | [], _ => pure ()
  | [b], addr => dmaOutWord addr (if bswap then b.setWidth 16 <<< 8 else b.setWidth 16)
  | a :: b :: rest, addr => do
      dmaOutWord addr (if bswap then a ++ b else b ++ a)
      dmaOutPairs bswap rest (addr + 2)

def lanceDmaOutBlock (addr : Addr) (buf : List Byte) : LanceM Unit := do
  let bswap := (← get).csr3.getLsbD 2
  if addr.getLsbD 0 then
    let first := (buf.headD 0).setWidth 16
    dmaOutWord (addr &&& ~~~1#32) (if bswap then first else first <<< 8)
    dmaOutPairs bswap buf.tail (addr + 1)
  else dmaOutPairs bswap buf addr

def lanceGetBufLength (variant : Variant) (data : Half) : Int :=
  if variant = .am79c90 ∧ data = 0 then 0
  else if data = 0xF000#16 then 4096
  else -(0xF000#16 ||| data).toInt

/-- The address of a descriptor, with `RING_ADDR_MASK`. -/
def ringAddress (base : Addr) (pos : Byte) : Addr :=
  (base + (pos.setWidth 32 <<< 3)) &&& 0xFFFFF8#32

/-- The address of a buffer, from the first two words of its descriptor. -/
def bufAddress (md1 md0 : Half) : Addr :=
  ((md1 &&& 0xFF#16).setWidth 32 <<< 16) ||| md0.setWidth 32

end Dma

section Filter

/-- One bit of the CRC table. -/
def crcStep (c : Addr) : Addr :=
  if c.getLsbD 0 then 0xEDB88320#32 ^^^ (c >>> 1) else c >>> 1

def crcTable (i : Byte) : Addr := crcStep^[8] (i.setWidth 32)

def lanceCrc32 (buf : List Byte) : Addr :=
  ~~~ buf.foldl (fun crc b => crcTable (crc.setWidth 8 ^^^ b) ^^^ (crc >>> 8)) 0xFFFFFFFF#32

/-- `LANCE_ETH_BROADCAST`. -/
def ethBroadcast : List Byte := List.replicate 6 0xFF#8

/-- A frame whose destination is `physical_addr`. -/
def Chip.SelfAddressed (l : Chip) (buf : List Byte) : Prop :=
  6 ≤ buf.length ∧ buf.take 6 = l.physicalAddr.toList

instance (l : Chip) (buf : List Byte) : Decidable (l.SelfAddressed buf) := instDecidableAnd

def lanceAddressFilter (l : Chip) (buf : List Byte) : Bool :=
  if modeProm l.mode then true
  else if (buf.headD 0).getLsbD 0 then
    if buf.take 6 = ethBroadcast then true
    else l.logicalAddrFilter.getLsbD (63 - (lanceCrc32 (buf.take 6) >>> 26).toNat)
  else buf.take 6 = l.physicalAddr.toList

end Filter

section Receive

/-- The first word of the next descriptor, or of this one in a ring of one. -/
def lookAhead (dmaIn : DmaIn) (slot nextSlot : Addr) (md1 : Half) : LanceM Half :=
  if nextSlot ≠ slot then dmaInWord dmaIn (nextSlot ||| 2) else pure md1

/-- The look-ahead of `lance_receive` when the descriptor's buffer is full. -/
def receiveNext (dmaIn : DmaIn) (slot : Addr) (offset : Nat) :
    LanceM ((Addr × Nat) ⊕ Nat) := do
  let l ← get
  let nextPos := (l.rxRingPos + 1) &&& l.rxRingMask
  let nextSlot := ringAddress l.rxRingBase nextPos
  let nextMd1 ← lookAhead dmaIn slot nextSlot l.rxMd1
  if nextMd1.getLsbD 15 then
    dmaOutWord (slot ||| 2) l.rxMd1
    modify fun l => { l with rxRingPos := nextPos, rxMd1 := nextMd1 }
    pure (.inl (nextSlot, offset))
  else
    modify fun l => { l with rxMd1 := l.rxMd1 ||| 0x4400 }
    pure (.inr offset)

/-- One round of the loop of `lance_receive`, with the descriptor's address and
the number of bytes stored so far. -/
def receiveRound (dmaIn : DmaIn) (buf : List Byte) :
    Addr × Nat → LanceM ((Addr × Nat) ⊕ Nat)
  | (slot, offset) =>
    if buf.length ≤ offset then pure (.inr offset)
    else do
      let md0 ← dmaInWord dmaIn slot
      modify fun l => { l with rxMd0 := md0 }
      let md2 ← dmaInWord dmaIn (slot ||| 4)
      modify fun l => { l with rxMd2 := md2 }
      let l ← get
      let rxBufLength := lanceGetBufLength l.variant md2
      let rxBufLength := if rxBufLength ≤ 0 then 64 else rxBufLength.toNat
      let count := min (buf.length - offset) rxBufLength
      lanceDmaOutBlock (bufAddress l.rxMd1 md0) ((buf.drop offset).take count)
      modify fun l => { l with rxMd1 := l.rxMd1 &&& ~~~0x8000#16 }
      if offset + count < buf.length then receiveNext dmaIn slot (offset + count)
      else pure (.inl (slot, offset + count))

/-- The end of `lance_receive`: the FCS check and ENP of a frame that is stored. -/
def checkFcs (buf : List Byte) (offset : Nat) (l : Chip) : Chip :=
  let wrongFcs := (¬ modeLoop l.mode ∨ modeDtcr l.mode) ∧ lanceCrc32 buf ≠ 0x2144DF1C#32
  if offset = buf.length then
    { l with rxMd1 := (if wrongFcs then l.rxMd1 ||| 0x4800 else l.rxMd1) ||| 0x0100 }
  else l

/-- `lance_receive`.  Every round stores at least one byte, so that as many rounds
as there are bytes, and a last one, are enough. -/
def lanceReceive (host : Host) (buf : List Byte) : LanceM Int := do
  let l ← get
  let internalLb := modeLoop l.mode && modeIntl l.mode
  if ¬ internalLb ∧ ¬ l.SelfAddressed buf ∧ ¬ l.csr0.rxon then pure (-1)
  else if ¬ lanceAddressFilter l buf then pure (-1)
  else
    match host.dma with
    | none => pure (-1)
    | some dmaIn => do
        let slot := ringAddress l.rxRingBase l.rxRingPos
        let md1 ← dmaInWord dmaIn (slot ||| 2)
        modify fun l => { l with rxMd1 := md1 }
        if ¬ md1.getLsbD 15 then pure (-2)
        else
          modify fun l => { l with rxMd1 := l.rxMd1 ||| 0x0200 }
          let offset ← Prog.loop (receiveRound dmaIn buf) (buf.length + 1) (slot, 0)
          modify (checkFcs buf offset)
          pure offset

def raiseRint (l : Chip) : Chip :=
  lanceUpdateInterrupts { l with csr0 := { l.csr0 with rint := true, intr := true } }

def lanceRecvComplete (result : Int) : LanceM Unit := do
  if result = -1 then pure ()
  else if result = -2 then
    modify fun l => { l with csr0 := { l.csr0 with err := true, miss := true } }
    modify raiseRint
  else
    let l ← get
    let slot := ringAddress l.rxRingBase l.rxRingPos
    dmaOutWord (slot ||| 2) l.rxMd1
    dmaOutWord (slot ||| 6) (BitVec.ofInt 16 result &&& 0x0FFF)
    modify fun l => { l with rxRingPos := (l.rxRingPos + 1) &&& l.rxRingMask }
    modify raiseRint

def lanceRecv (host : Host) (buf : List Byte) : LanceM Int := do
  let l ← get
  if buf.length < 60 then pure (-1)
  else if modeLoop l.mode && modeIntl l.mode then pure (-1)
  else
    let result ← lanceReceive host buf
    lanceRecvComplete result
    pure (if result < 0 then result else 0)

end Receive

section Transmit

def raiseTint (l : Chip) : Chip :=
  { lanceUpdateInterrupts { l with csr0 := { l.csr0 with tint := true, intr := true } } with
    txPollCounter := 1 }

def advanceTx (l : Chip) : Chip :=
  { l with txRingPos := (l.txRingPos + 1) &&& l.txRingMask }

/-- The error bits that `lance_send_complete` puts into the descriptor. -/
def markResult (slot : Addr) (result : Int) : LanceM Unit := do
  let l ← get
  if result = -2 then
    modify fun l => { l with txMd1 := l.txMd1 ||| 0x4000 }
  else if result = -1 then
    modify fun l => { l with txMd1 := l.txMd1 ||| 0x4000, txMd3 := l.txMd3 ||| 0x0400 }
    dmaOutWord (slot ||| 6) (l.txMd3 ||| 0x0400)
  else if result = 0 then
    modify fun l => { l with txMd1 := l.txMd1 ||| 0x4000, txMd3 := l.txMd3 ||| 0x0800 }
    dmaOutWord (slot ||| 6) (l.txMd3 ||| 0x0800)
  else pure ()

def lanceSendComplete (result : Int) : LanceM Unit := do
  let l ← get
  let slot := ringAddress l.txRingBase l.txRingPos
  markResult slot result
  let marked ← get
  dmaOutWord (slot ||| 2) marked.txMd1
  modify advanceTx
  modify raiseTint

/-- The look-ahead of `lance_transmit` at the next descriptor of a chain. -/
def transmitNext (dmaIn : DmaIn) (slot : Addr) (buf : List Byte) :
    LanceM ((Addr × List Byte) ⊕ Option (List Byte)) := do
  let l ← get
  let nextPos := (l.txRingPos + 1) &&& l.txRingMask
  let nextSlot := ringAddress l.txRingBase nextPos
  let nextTmd1 ← lookAhead dmaIn slot nextSlot l.txMd1
  if nextTmd1.getLsbD 15 then
    dmaOutWord (slot ||| 2) l.txMd1
    modify fun l => { l with txRingPos := nextPos, txMd1 := nextTmd1 }
    pure (.inl (nextSlot, buf))
  else
    modify fun l => { l with txMd1 := l.txMd1 ||| 0x4000, txMd3 := l.txMd3 ||| 0xC000 }
    dmaOutWord (slot ||| 6) (l.txMd3 ||| 0xC000)
    modify fun l => { l with csr0 := { l.csr0 with txon := false } }
    pure (.inr (some buf))

/-- The bytes of a descriptor's buffer that still fit behind those gathered. -/
def gather (dmaIn : DmaIn) (addr : Addr) (txBufLength : Nat) (buf : List Byte) :
    LanceM (List Byte) :=
  let count := min txBufLength (4096 - buf.length)
  if 0 < count then do
    let block ← lanceDmaInBlock dmaIn addr count
    pure (buf ++ block)
  else pure buf

/-- One round of the loop of `lance_transmit`, with the descriptor's address and
the bytes gathered so far.  Its result is `none` when the frame is dropped. -/
def transmitRound (dmaIn : DmaIn) :
    Addr × List Byte → LanceM ((Addr × List Byte) ⊕ Option (List Byte))
  | (slot, buf) => do
    let md0 ← dmaInWord dmaIn slot
    modify fun l => { l with txMd0 := md0 }
    let md2 ← dmaInWord dmaIn (slot ||| 4)
    modify fun l => { l with txMd2 := md2, txMd3 := 0 }
    let l ← get
    let txBufLength := lanceGetBufLength l.variant md2
    modify fun l => { l with txMd1 := l.txMd1 &&& ~~~0x8000#16 }
    if txBufLength ≤ 0 then
      dmaOutWord (slot ||| 2) (l.txMd1 &&& ~~~0x8000#16)
      modify advanceTx
      pure (.inr none)
    else
      let gathered ← gather dmaIn (bufAddress l.txMd1 md0) txBufLength.toNat buf
      if ¬ l.txMd1.getLsbD 8 then transmitNext dmaIn slot gathered
      else pure (.inr (some gathered))

/-- The little-endian bytes of the frame check sequence. -/
def fcsBytes (crc : Addr) : List Byte :=
  [crc.setWidth 8, (crc >>> 8).setWidth 8, (crc >>> 16).setWidth 8, (crc >>> 24).setWidth 8]

/-- `lance_transmit` behind the loopback cases: the frame goes to the host, and to
the loopback buffer when the chip has sent it to itself. -/
def transmitExternal (host : Host) (frame : List Byte) : LanceM Unit := do
  modify fun l => if host.send then { l with log := .send frame :: l.log } else l
  lanceSendComplete frame.length
  modify fun l =>
    if 12 ≤ frame.length ∧ l.SelfAddressed frame ∧ frame.length ≤ 100 then
      { l with lbBuf := frame, lbHairpin := true }
    else l

def babble (buf : List Byte) (l : Chip) : Chip :=
  if 1518 < buf.length then { l with csr0 := { l.csr0 with err := true, babl := true } } else l

/-- `lance_transmit` behind its loop, with the bytes gathered. -/
def transmitFrame (host : Host) (appendFcs : Bool) (buf : List Byte) : LanceM Unit := do
  modify (babble buf)
  let frame := if appendFcs then buf ++ fcsBytes (lanceCrc32 buf) else buf
  let l ← get
  if modeLoop l.mode then
    if modeColl l.mode && modeIntl l.mode then lanceSendComplete (-1)
    else if buf.length < 8 ∨ 32 < buf.length then lanceSendComplete (-2)
    else
      modify fun l => { l with lbBuf := frame.take 100 }
      if modeIntl l.mode then lanceSendComplete (frame.take 100).length
      else transmitExternal host (frame.take 100)
  else transmitExternal host frame

/-- `lance_transmit`.  The chain of descriptors may have no end; `rounds` bounds
the number of descriptors that are looked at. -/
def lanceTransmit (host : Host) (dmaIn : DmaIn) (rounds : Nat) : LanceM Unit := do
  let l ← get
  let addFcs := l.variant = .am79c90 ∧ l.txMd1.getLsbD 13
  modify fun l =>
    if l.variant = .am79c90 then l else { l with txMd1 := l.txMd1 &&& ~~~0x2000#16 }
  match ← Prog.loop (transmitRound dmaIn) rounds (ringAddress l.txRingBase l.txRingPos, []) with
  | none => pure ()
  | some buf => transmitFrame host (¬ modeDtcr l.mode ∨ addFcs) buf

/-- `lance_transmit_poll` up to its label `check_loopback`. -/
def pollRing (host : Host) (rounds : Nat) : LanceM Unit := do
  let l ← get
  if l.csr0.txon then
    modify fun l => { l with csr0 := { l.csr0 with tdmd := false } }
    match host.dma with
    | none => pure ()
    | some dmaIn => do
        let slot := ringAddress l.txRingBase l.txRingPos
        let md1 ← dmaInWord dmaIn (slot ||| 2)
        modify fun l => { l with txMd1 := md1 }
        if md1.getLsbD 15 then
          if ¬ md1.getLsbD 9 then
            dmaOutWord (slot ||| 2) (md1 &&& ~~~0x8000#16)
            modify advanceTx
          else lanceTransmit host dmaIn rounds
        else pure ()
  else pure ()

/-- The loopback drain at the end of `lance_transmit_poll`. -/
def checkLoopback (host : Host) : LanceM Unit := do
  let l ← get
  if l.lbBuf ≠ [] ∧ (modeLoop l.mode ∨ l.lbHairpin) then
    let result ← lanceReceive host l.lbBuf
    modify fun l => { l with lbBuf := [], lbHairpin := false }
    lanceRecvComplete result
  else pure ()

def lanceTransmitPoll (host : Host) (rounds : Nat) : LanceM Unit := do
  pollRing host rounds
  checkLoopback host

end Transmit

section Control

/-- The fields that `lance_initialize` takes from the init block. -/
def Chip.withInitBlock (l : Chip) (initBlock : List Half) : Chip :=
  let word := fun i => initBlock.getD i 0
  { l with
    mode := word 0
    physicalAddr := #v[lowByte (word 1), highByte (word 1), lowByte (word 2),
      highByte (word 2), lowByte (word 3), highByte (word 3)]
    logicalAddrFilter := word 7 ++ word 6 ++ word 5 ++ word 4
    rxRingBase := (word 9 ++ word 8) &&& 0xFFFFF8#32
    txRingBase := (word 11 ++ word 10) &&& 0xFFFFF8#32
    rxRingMask := ~~~(1#8 <<< ((word 9).extractLsb' 13 3).toNat)
    txRingMask := ~~~(1#8 <<< ((word 11).extractLsb' 13 3).toNat)
    rxRingPos := 0
    txRingPos := 0 }

/-- The end of `lance_initialize`: IDON without delay. -/
def raiseIdon (l : Chip) : Chip :=
  lanceUpdateInterrupts
    { l with
      csr0 := { l.csr0 with
        init := false, stop := false, strt := false, txon := false, rxon := false
        idon := true, intr := true }
      idon := false }

def lanceInitialize (host : Host) : LanceM Unit := do
  match host.dma with
  | none => pure ()
  | some dmaIn => do
      let l ← get
      let initBlock ← readWords dmaIn ((l.csr2 ++ l.csr1) &&& 0xFFFFFE#32) 12
      modify fun l => l.withInitBlock initBlock
      modify raiseIdon

/-- The status bits that a write of 1 clears. -/
def Csr0.clearStatus (c data : Csr0) : Csr0 :=
  { c with
    babl := c.babl && !data.babl
    cerr := c.cerr && !data.cerr
    miss := c.miss && !data.miss
    merr := c.merr && !data.merr
    rint := c.rint && !data.rint
    tint := c.tint && !data.tint
    idon := c.idon && !data.idon }

def startChip (l : Chip) : Chip :=
  { l with
    csr0 := { l.csr0 with
      strt := true, stop := false, rxon := !modeDrx l.mode, txon := !modeDtx l.mode }
    txPollCounter := 1 }

/-- Transmit demand, with the implicit start. -/
def demandTransmit (l : Chip) : Chip :=
  let csr0 := { l.csr0 with tdmd := true }
  { l with
    csr0 :=
      if ¬ csr0.strt then
        { csr0 with
          strt := true
          rxon := csr0.rxon || !modeDrx l.mode
          txon := csr0.txon || !modeDtx l.mode }
      else csr0
    txPollCounter := 1 }

/-- INEA in a write to CSR0. -/
def enableInterrupts (data : Csr0) (l : Chip) : Chip :=
  if ¬ l.csr0.stop ∨ l.variant = .am79c90 then
    { l with csr0 := { l.csr0 with inea := data.inea } }
  else l

/-- The composite flags ERR and INTR. -/
def Csr0.recomputed (c : Csr0) : Csr0 :=
  { c with
    err := c.babl || c.cerr || c.miss || c.merr
    intr := c.babl || c.miss || c.merr || c.rint || c.tint || c.idon }

/-- INIT in a write to CSR0. -/
def writeInit (host : Host) (data : Csr0) : LanceM Unit := do
  let l ← get
  if data.init ∧ ¬ l.csr0.init then lanceInitialize host else pure ()

/-- STRT in a write to CSR0. -/
def writeStrt (host : Host) (rounds : Nat) (data : Csr0) : LanceM Unit := do
  let l ← get
  if data.strt ∧ ¬ l.csr0.strt then
    modify startChip
    lanceTransmitPoll host rounds
  else pure ()

/-- TDMD in a write to CSR0. -/
def writeTdmd (host : Host) (rounds : Nat) (data : Csr0) : LanceM Unit := do
  let l ← get
  if data.tdmd ∧ ¬ l.csr0.tdmd then
    modify demandTransmit
    lanceTransmitPoll host rounds
  else pure ()

/-- A write to CSR0. -/
def writeCsr0 (host : Host) (rounds : Nat) (data : Csr0) : LanceM Unit := do
  if data.stop then
    modify fun l => if ¬ l.csr0.stop then lanceReset l else l
  else
    modify fun l => { l with csr0 := l.csr0.clearStatus data }
    writeInit host data
    writeStrt host rounds data
    writeTdmd host rounds data
    modify (enableInterrupts data)
    modify fun l => lanceUpdateInterrupts { l with csr0 := l.csr0.recomputed }

def lanceRegsW (host : Host) (rounds : Nat) (offset : Int) (data : Half) : LanceM Unit := do
  let l ← get
  if offset ≠ 0 then
    modify fun l => { l with rap := data.setWidth 2 }
  else if l.rap = 0 then writeCsr0 host rounds (Csr0.ofHalf data)
  else if ¬ l.csr0.stop then pure ()
  else if l.rap = 1 then
    modify fun l => { l with csr1 := data }
  else if l.rap = 2 then
    modify fun l => { l with csr2 := data }
  else
    modify fun l => { l with csr3 := data &&& 0x07 }

def tickInit (cycles : Int) (l : Chip) : Chip :=
  if ¬ l.idon then l
  else if l.initDelay - cycles ≤ 0 then
    { lanceUpdateInterrupts
        { l with
          csr0 := { l.csr0 with init := false, idon := true, intr := true }
          idon := false } with
      initDelay := 500 }
  else { l with initDelay := l.initDelay - cycles }

def lanceTick (host : Host) (rounds : Nat) (cycles : Int) : LanceM Unit := do
  if cycles ≤ 0 then pure ()
  else
    modify (tickInit cycles)
    let l ← get
    if 0 < l.txPollCounter then
      if l.txPollCounter - cycles ≤ 0 then
        modify fun l => { l with txPollCounter := 19200 }
        lanceTransmitPoll host rounds
      else
        modify fun l => { l with txPollCounter := l.txPollCounter - cycles }
    else pure ()

inductive Call
  | regsR (offset : Int)
  | regsW (offset : Int) (data : Half)
  | reset
  | tick (cycles : Int)
  | recv (buf : List Byte)
  deriving DecidableEq

def Call.run (host : Host) (rounds : Nat) : Call → LanceM Unit
  | .regsR _ => pure ()
  | .regsW offset data => lanceRegsW host rounds offset data
  | .reset => modify lanceReset
  | .tick cycles => lanceTick host rounds cycles
  | .recv buf => do
      let _ ← lanceRecv host buf
      pure ()

/-- The chip between two calls, from `lance_init` on. -/
inductive Reached (host : Host) (variant : Variant) : Chip → Prop
  | init : Reached host variant (lanceInit variant)
  | call {l l' : Chip} (before : Reached host variant l) (call : Call) (rounds : Nat)
      (run : call.run host rounds l = some ((), l')) : Reached host variant l'

def zeroHost : Host := ⟨some fun _ _ => 0, true⟩

end Control

end Ncd15.Lance
