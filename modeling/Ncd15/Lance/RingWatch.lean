import Ncd15.Lance.HostMemory
import Ncd15.Library.Audit

/-!
# The chip under watch

The code of the chip once more, beside a record of the rings: where the init block that was
read last puts them, whether every access to a descriptor has been inside its ring, and whether
every change of a position has been one step around.  Parts without a descriptor are those of
the chip itself.
-/

namespace Ncd15.Lance

open Ncd15.Library

section Rings

/-- The two rings. -/
inductive Side
  | rx
  | tx
  deriving DecidableEq

def Side.other : Side → Side
  | .rx => .tx
  | .tx => .rx

/-- What the chip knows of a ring. -/
structure RingRegs where
  base : Addr
  mask : Byte
  pos : Byte

def Chip.ring (l : Chip) : Side → RingRegs
  | .rx => ⟨l.rxRingBase, l.rxRingMask, l.rxRingPos⟩
  | .tx => ⟨l.txRingBase, l.txRingMask, l.txRingPos⟩

/-- The address of the current descriptor. -/
def RingRegs.slot (r : RingRegs) : Addr := ringAddress r.base r.pos

/-- The ring at the next position, as the code computes it. -/
def RingRegs.next (r : RingRegs) : RingRegs := { r with pos := (r.pos + 1) &&& r.mask }

/-- A ring of an init block: its address and RLEN or TLEN. -/
structure Extent where
  base : Addr
  exponent : Nat

def extents (initBlock : List Half) : Side → Extent
  | .rx => ⟨(initBlock.getD 9 0 ++ initBlock.getD 8 0) &&& 0xFFFFF8#32,
      (initBlock.getD 9 0).toNat / 2 ^ 13⟩
  | .tx => ⟨(initBlock.getD 11 0 ++ initBlock.getD 10 0) &&& 0xFFFFF8#32,
      (initBlock.getD 11 0).toNat / 2 ^ 13⟩

/-- The halfword at an address lies in the descriptors of a ring. -/
def Extent.Contains (e : Extent) (addr : Addr) : Prop :=
  (addr - e.base).toNat % 2 ^ 24 + 2 ≤ 8 * 2 ^ e.exponent

instance (e : Extent) (addr : Addr) : Decidable (e.Contains addr) := Nat.decLe _ _

/-- The chip and the record.  Before the first init block both rings are the one descriptor
at 0. -/
structure Overseen where
  chip : Chip
  rings : Side → Extent
  inside : Bool
  stepped : Bool

abbrev OverseenM := Audit Overseen

def Overseen.start (variant : Variant) : Overseen :=
  ⟨lanceInit variant, fun _ => ⟨0, 0⟩, true, true⟩

end Rings

namespace Oversee

section Steps

variable {α : Type}

/-- Code without a descriptor, which must not change a position. -/
def quietly (p : LanceM α) : OverseenM α := fun s =>
  match p s.chip with
  | none => (none, s)
  | some (x, l) =>
      (some x, { s with
        chip := l
        stepped := s.stepped && decide ((l.ring .rx).pos = (s.chip.ring .rx).pos ∧
          (l.ring .tx).pos = (s.chip.ring .tx).pos) })

def chip : OverseenM Chip := fun s => (some s.chip, s)

/-- An access to a descriptor of a ring. -/
def access (side : Side) (addr : Addr) (p : LanceM α) : OverseenM α := fun s =>
  quietly p { s with inside := s.inside && decide ((s.rings side).Contains addr) }

def readDesc (dmaIn : DmaIn) (side : Side) (addr : Addr) : OverseenM Half :=
  access side addr (dmaInWord dmaIn addr)

def writeDesc (side : Side) (addr : Addr) (data : Half) : OverseenM Unit :=
  access side addr (dmaOutWord addr data)

/-- A change of the position in one ring. -/
def advance (side : Side) (change : Chip → Chip) : OverseenM Unit := fun s =>
  (some (), { s with
    chip := change s.chip
    stepped := s.stepped &&
      decide (((change s.chip).ring side).pos.toNat =
          ((s.chip.ring side).pos.toNat + 1) % 2 ^ (s.rings side).exponent ∧
        ((change s.chip).ring side.other).pos = (s.chip.ring side.other).pos) })

/-- The change that an init block makes, which starts the rings anew. -/
def restart (initBlock : List Half) (change : Chip → Chip) : OverseenM Unit := fun s =>
  (some (), { s with chip := change s.chip, rings := extents initBlock })

end Steps

section Receive

def lookAhead (dmaIn : DmaIn) (side : Side) (slot nextSlot : Addr) (md1 : Half) :
    OverseenM Half :=
  if nextSlot ≠ slot then readDesc dmaIn side (nextSlot ||| 2) else pure md1

def receiveNext (dmaIn : DmaIn) (slot : Addr) (offset : Nat) :
    OverseenM ((Addr × Nat) ⊕ Nat) := do
  let l ← chip
  let nextPos := (l.rxRingPos + 1) &&& l.rxRingMask
  let nextSlot := ringAddress l.rxRingBase nextPos
  let nextMd1 ← lookAhead dmaIn .rx slot nextSlot l.rxMd1
  if nextMd1.getLsbD 15 then
    writeDesc .rx (slot ||| 2) l.rxMd1
    advance .rx fun l => { l with rxRingPos := nextPos, rxMd1 := nextMd1 }
    pure (.inl (nextSlot, offset))
  else
    quietly (modify fun l => { l with rxMd1 := l.rxMd1 ||| 0x4400 })
    pure (.inr offset)

def receiveRound (dmaIn : DmaIn) (buf : List Byte) :
    Addr × Nat → OverseenM ((Addr × Nat) ⊕ Nat)
  | (slot, offset) =>
    if buf.length ≤ offset then pure (.inr offset)
    else do
      let md0 ← readDesc dmaIn .rx slot
      quietly (modify fun l => { l with rxMd0 := md0 })
      let md2 ← readDesc dmaIn .rx (slot ||| 4)
      quietly (modify fun l => { l with rxMd2 := md2 })
      let l ← chip
      let rxBufLength := lanceGetBufLength l.variant md2
      let rxBufLength := if rxBufLength ≤ 0 then 64 else rxBufLength.toNat
      let count := min (buf.length - offset) rxBufLength
      quietly (lanceDmaOutBlock (bufAddress l.rxMd1 md0) ((buf.drop offset).take count))
      quietly (modify fun l => { l with rxMd1 := l.rxMd1 &&& ~~~0x8000#16 })
      if offset + count < buf.length then receiveNext dmaIn slot (offset + count)
      else pure (.inl (slot, offset + count))

def lanceReceive (host : Host) (buf : List Byte) : OverseenM Int := do
  let l ← chip
  let internalLb := modeLoop l.mode && modeIntl l.mode
  if ¬ internalLb ∧ ¬ l.SelfAddressed buf ∧ ¬ l.csr0.rxon then pure (-1)
  else if ¬ lanceAddressFilter l buf then pure (-1)
  else
    match host.dma with
    | none => pure (-1)
    | some dmaIn => do
        let slot := ringAddress l.rxRingBase l.rxRingPos
        let md1 ← readDesc dmaIn .rx (slot ||| 2)
        quietly (modify fun l => { l with rxMd1 := md1 })
        if ¬ md1.getLsbD 15 then pure (-2)
        else
          quietly (modify fun l => { l with rxMd1 := l.rxMd1 ||| 0x0200 })
          let offset ← Audit.loop (receiveRound dmaIn buf) (buf.length + 1) (slot, 0)
          quietly (modify (checkFcs buf offset))
          pure offset

def lanceRecvComplete (result : Int) : OverseenM Unit := do
  if result = -1 then pure ()
  else if result = -2 then
    quietly (modify fun l => { l with csr0 := { l.csr0 with err := true, miss := true } })
    quietly (modify raiseRint)
  else
    let l ← chip
    let slot := ringAddress l.rxRingBase l.rxRingPos
    writeDesc .rx (slot ||| 2) l.rxMd1
    writeDesc .rx (slot ||| 6) (BitVec.ofInt 16 result &&& 0x0FFF)
    advance .rx fun l => { l with rxRingPos := (l.rxRingPos + 1) &&& l.rxRingMask }
    quietly (modify raiseRint)

def lanceRecv (host : Host) (buf : List Byte) : OverseenM Int := do
  let l ← chip
  if buf.length < 60 then pure (-1)
  else if modeLoop l.mode && modeIntl l.mode then pure (-1)
  else
    let result ← lanceReceive host buf
    lanceRecvComplete result
    pure (if result < 0 then result else 0)

end Receive

section Transmit

def markResult (slot : Addr) (result : Int) : OverseenM Unit := do
  let l ← chip
  if result = -2 then
    quietly (modify fun l => { l with txMd1 := l.txMd1 ||| 0x4000 })
  else if result = -1 then
    quietly (modify fun l =>
      { l with txMd1 := l.txMd1 ||| 0x4000, txMd3 := l.txMd3 ||| 0x0400 })
    writeDesc .tx (slot ||| 6) (l.txMd3 ||| 0x0400)
  else if result = 0 then
    quietly (modify fun l =>
      { l with txMd1 := l.txMd1 ||| 0x4000, txMd3 := l.txMd3 ||| 0x0800 })
    writeDesc .tx (slot ||| 6) (l.txMd3 ||| 0x0800)
  else pure ()

def lanceSendComplete (result : Int) : OverseenM Unit := do
  let l ← chip
  let slot := ringAddress l.txRingBase l.txRingPos
  markResult slot result
  let marked ← chip
  writeDesc .tx (slot ||| 2) marked.txMd1
  advance .tx advanceTx
  quietly (modify raiseTint)

def transmitNext (dmaIn : DmaIn) (slot : Addr) (buf : List Byte) :
    OverseenM ((Addr × List Byte) ⊕ Option (List Byte)) := do
  let l ← chip
  let nextPos := (l.txRingPos + 1) &&& l.txRingMask
  let nextSlot := ringAddress l.txRingBase nextPos
  let nextTmd1 ← lookAhead dmaIn .tx slot nextSlot l.txMd1
  if nextTmd1.getLsbD 15 then
    writeDesc .tx (slot ||| 2) l.txMd1
    advance .tx fun l => { l with txRingPos := nextPos, txMd1 := nextTmd1 }
    pure (.inl (nextSlot, buf))
  else
    quietly (modify fun l =>
      { l with txMd1 := l.txMd1 ||| 0x4000, txMd3 := l.txMd3 ||| 0xC000 })
    writeDesc .tx (slot ||| 6) (l.txMd3 ||| 0xC000)
    quietly (modify fun l => { l with csr0 := { l.csr0 with txon := false } })
    pure (.inr (some buf))

def transmitRound (dmaIn : DmaIn) :
    Addr × List Byte → OverseenM ((Addr × List Byte) ⊕ Option (List Byte))
  | (slot, buf) => do
    let md0 ← readDesc dmaIn .tx slot
    quietly (modify fun l => { l with txMd0 := md0 })
    let md2 ← readDesc dmaIn .tx (slot ||| 4)
    quietly (modify fun l => { l with txMd2 := md2, txMd3 := 0 })
    let l ← chip
    let txBufLength := lanceGetBufLength l.variant md2
    quietly (modify fun l => { l with txMd1 := l.txMd1 &&& ~~~0x8000#16 })
    if txBufLength ≤ 0 then
      writeDesc .tx (slot ||| 2) (l.txMd1 &&& ~~~0x8000#16)
      advance .tx advanceTx
      pure (.inr none)
    else
      let gathered ← quietly (gather dmaIn (bufAddress l.txMd1 md0) txBufLength.toNat buf)
      if ¬ l.txMd1.getLsbD 8 then transmitNext dmaIn slot gathered
      else pure (.inr (some gathered))

def transmitExternal (host : Host) (frame : List Byte) : OverseenM Unit := do
  quietly (modify fun l => if host.send then { l with log := .send frame :: l.log } else l)
  lanceSendComplete frame.length
  quietly (modify fun l =>
    if 12 ≤ frame.length ∧ l.SelfAddressed frame ∧ frame.length ≤ 100 then
      { l with lbBuf := frame, lbHairpin := true }
    else l)

def transmitFrame (host : Host) (appendFcs : Bool) (buf : List Byte) : OverseenM Unit := do
  quietly (modify (babble buf))
  let frame := if appendFcs then buf ++ fcsBytes (lanceCrc32 buf) else buf
  let l ← chip
  if modeLoop l.mode then
    if modeColl l.mode && modeIntl l.mode then lanceSendComplete (-1)
    else if buf.length < 8 ∨ 32 < buf.length then lanceSendComplete (-2)
    else
      quietly (modify fun l => { l with lbBuf := frame.take 100 })
      if modeIntl l.mode then lanceSendComplete (frame.take 100).length
      else transmitExternal host (frame.take 100)
  else transmitExternal host frame

def lanceTransmit (host : Host) (dmaIn : DmaIn) (rounds : Nat) : OverseenM Unit := do
  let l ← chip
  let addFcs := l.variant = .am79c90 ∧ l.txMd1.getLsbD 13
  quietly (modify fun l =>
    if l.variant = .am79c90 then l else { l with txMd1 := l.txMd1 &&& ~~~0x2000#16 })
  match ← Audit.loop (transmitRound dmaIn) rounds (ringAddress l.txRingBase l.txRingPos, []) with
  | none => pure ()
  | some buf => transmitFrame host (¬ modeDtcr l.mode ∨ addFcs) buf

def pollRing (host : Host) (rounds : Nat) : OverseenM Unit := do
  let l ← chip
  if l.csr0.txon then
    quietly (modify fun l => { l with csr0 := { l.csr0 with tdmd := false } })
    match host.dma with
    | none => pure ()
    | some dmaIn => do
        let slot := ringAddress l.txRingBase l.txRingPos
        let md1 ← readDesc dmaIn .tx (slot ||| 2)
        quietly (modify fun l => { l with txMd1 := md1 })
        if md1.getLsbD 15 then
          if ¬ md1.getLsbD 9 then
            writeDesc .tx (slot ||| 2) (md1 &&& ~~~0x8000#16)
            advance .tx advanceTx
          else lanceTransmit host dmaIn rounds
        else pure ()
  else pure ()

def checkLoopback (host : Host) : OverseenM Unit := do
  let l ← chip
  if l.lbBuf ≠ [] ∧ (modeLoop l.mode ∨ l.lbHairpin) then
    let result ← lanceReceive host l.lbBuf
    quietly (modify fun l => { l with lbBuf := [], lbHairpin := false })
    lanceRecvComplete result
  else pure ()

def lanceTransmitPoll (host : Host) (rounds : Nat) : OverseenM Unit := do
  pollRing host rounds
  checkLoopback host

end Transmit

section Control

def lanceInitialize (host : Host) : OverseenM Unit := do
  match host.dma with
  | none => pure ()
  | some dmaIn => do
      let l ← chip
      let initBlock ← quietly (readWords dmaIn ((l.csr2 ++ l.csr1) &&& 0xFFFFFE#32) 12)
      restart initBlock fun l => l.withInitBlock initBlock
      quietly (modify raiseIdon)

def writeInit (host : Host) (data : Csr0) : OverseenM Unit := do
  let l ← chip
  if data.init ∧ ¬ l.csr0.init then lanceInitialize host else pure ()

def writeStrt (host : Host) (rounds : Nat) (data : Csr0) : OverseenM Unit := do
  let l ← chip
  if data.strt ∧ ¬ l.csr0.strt then
    quietly (modify startChip)
    lanceTransmitPoll host rounds
  else pure ()

def writeTdmd (host : Host) (rounds : Nat) (data : Csr0) : OverseenM Unit := do
  let l ← chip
  if data.tdmd ∧ ¬ l.csr0.tdmd then
    quietly (modify demandTransmit)
    lanceTransmitPoll host rounds
  else pure ()

def writeCsr0 (host : Host) (rounds : Nat) (data : Csr0) : OverseenM Unit := do
  if data.stop then
    quietly (modify fun l => if ¬ l.csr0.stop then lanceReset l else l)
  else
    quietly (modify fun l => { l with csr0 := l.csr0.clearStatus data })
    writeInit host data
    writeStrt host rounds data
    writeTdmd host rounds data
    quietly (modify (enableInterrupts data))
    quietly (modify fun l => lanceUpdateInterrupts { l with csr0 := l.csr0.recomputed })

def lanceRegsW (host : Host) (rounds : Nat) (offset : Int) (data : Half) : OverseenM Unit := do
  let l ← chip
  if offset ≠ 0 then
    quietly (modify fun l => { l with rap := data.setWidth 2 })
  else if l.rap = 0 then writeCsr0 host rounds (Csr0.ofHalf data)
  else if ¬ l.csr0.stop then pure ()
  else if l.rap = 1 then
    quietly (modify fun l => { l with csr1 := data })
  else if l.rap = 2 then
    quietly (modify fun l => { l with csr2 := data })
  else
    quietly (modify fun l => { l with csr3 := data &&& 0x07 })

def lanceTick (host : Host) (rounds : Nat) (cycles : Int) : OverseenM Unit := do
  if cycles ≤ 0 then pure ()
  else
    quietly (modify (tickInit cycles))
    let l ← chip
    if 0 < l.txPollCounter then
      if l.txPollCounter - cycles ≤ 0 then
        quietly (modify fun l => { l with txPollCounter := 19200 })
        lanceTransmitPoll host rounds
      else
        quietly (modify fun l => { l with txPollCounter := l.txPollCounter - cycles })
    else pure ()

def call (host : Host) (rounds : Nat) : Call → OverseenM Unit
  | .regsR _ => pure ()
  | .regsW offset data => lanceRegsW host rounds offset data
  | .reset => quietly (modify lanceReset)
  | .tick cycles => lanceTick host rounds cycles
  | .recv buf => do
      let _ ← lanceRecv host buf
      pure ()

end Control

end Oversee

/-- The overseen chip between two calls, from `lance_init` on. -/
inductive OverseenRun (host : Host) (variant : Variant) : Overseen → Prop
  | init : OverseenRun host variant (Overseen.start variant)
  | call {s s' : Overseen} (before : OverseenRun host variant s) (call : Call) (rounds : Nat)
      (run : Oversee.call host rounds call s = (some (), s')) : OverseenRun host variant s'

end Ncd15.Lance
