import Ncd15.Library.Prog
import Ncd15.Emulator.Bus

/-!
# The DUART and the EEPROM behind it

`duart.c` and the bit-banged 93C46 of `nvram.c`, whose pins hang on the output
and the input port of the DUART.  An access outside of an array of the device
has no result.
-/

namespace Ncd15.Emulator

open Ncd15.Library

section Eeprom

/-- `NVRAM_WORDS`. -/
def nvramWords : Nat := 64

/-- The protocol states of `nvram.c`. -/
inductive NvramState
  | idle
  | cmd
  | readOut
  | writeIn
  deriving DecidableEq, Repr

/-- `struct nvram`. -/
structure Nvram where
  mem : Vector (BitVec 16) nvramWords
  cs : Bool
  sk : Bool
  di : Bool
  state : NvramState
  rxShift : Word
  rxCount : Nat
  txShift : Word
  /-- An `int`, which wraps around when the chip is clocked on and on. -/
  txCount : Word
  ewen : Bool
  addr : Nat
  deriving DecidableEq

def nvramNew : Nvram where
  mem := Vector.replicate nvramWords 0xFFFF#16
  cs := false
  sk := false
  di := false
  state := .idle
  rxShift := 0#32
  rxCount := 0
  txShift := 0#32
  txCount := 0#32
  ewen := true
  addr := 0

namespace Nvram

/-- `nvram_begin_cmd`. -/
def beginCmd (n : Nvram) : Nvram :=
  { n with state := .cmd, rxShift := 0#32, rxCount := 0, txCount := 0#32 }

/-- `(rx_shift << 1) | (di & 1)`, which counts the bit. -/
def shiftIn (n : Nvram) : Nvram :=
  { n with
    rxShift := n.rxShift <<< 1 ||| (if n.di then 1#32 else 0#32)
    rxCount := n.rxCount + 1 }

/-- The `switch (op)` of `nvram_sk_rise`. -/
def dispatch (n : Nvram) (op : Nat) : Nvram :=
  match op with
  | 2 =>
      { n with
        txShift := if n.addr < nvramWords then (n.mem.getD n.addr 0#16).setWidth 32 else 0xFFFF#32
        txCount := 0#32
        state := .readOut }
  | 1 => { n with rxShift := 0#32, rxCount := 0, state := .writeIn }
  | 3 =>
      { n with
        mem := if n.ewen then n.mem.setIfInBounds n.addr 0xFFFF#16 else n.mem
        state := .idle }
  | 0 =>
      match n.addr >>> 4 &&& 3 with
      | 0 => { n with ewen := false, state := .idle }
      | 2 =>
          { n with
            mem := if n.ewen then Vector.replicate nvramWords 0xFFFF#16 else n.mem
            state := .idle }
      | 3 => { n with ewen := true, state := .idle }
      -- WRAL, and no other value is left
      | _ => { n with state := .idle }
  | _ => n

/-- The `CMD` branch of `nvram_sk_rise`. -/
def riseCmd (n : Nvram) : Nvram :=
  let n := n.shiftIn
  if n.rxCount < 9 then n
  else if !n.rxShift.getLsbD 8 && n.rxCount < 24 then n
  else
    let cmd := (n.rxShift &&& 0xFF#32).toNat
    { n with addr := cmd &&& 0x3F }.dispatch (cmd >>> 6 &&& 3)

/-- The `WRITE_IN` branch of `nvram_sk_rise`. -/
def riseWriteIn (n : Nvram) : Nvram :=
  let n := n.shiftIn
  if n.rxCount = 16 then
    { n with
      mem := if n.ewen then n.mem.setIfInBounds n.addr (n.rxShift.setWidth 16) else n.mem
      state := .idle }
  else n

/-- `nvram_sk_rise`. -/
def skRise (n : Nvram) : Nvram :=
  if n.cs then
    let n := match n.state with
      | .cmd => n.riseCmd
      | .writeIn => n.riseWriteIn
      | _ => n
    if n.state = .readOut then { n with txCount := n.txCount + 1#32 } else n
  else n

/-- `nvram_read`. -/
def read (n : Nvram) (offset : Word) : Word :=
  if offset ≠ 0#32 then 0#32
  else if n.state = .readOut then
    if n.txCount = 1#32 then 0#32
    else if (2#32).sle n.txCount && n.txCount.sle 17#32 then
      n.txShift >>> (15 - (n.txCount.toNat - 2)) &&& 1#32
    else 1#32
  else 1#32

/-- `nvram_write`. -/
def write (n : Nvram) (offset value : Word) : Nvram :=
  if offset ≠ 0#32 then n
  else
    let newDi := value.getLsbD 0
    let newSk := value.getLsbD 1
    let newCs := value.getLsbD 2
    let n := if newCs && !n.cs then n.beginCmd else n
    let n := if !newCs && n.cs then { n with state := .idle } else n
    let n := if newSk && !n.sk && newCs then n.skRise else n
    { n with cs := newCs, sk := newSk, di := newDi }

end Nvram

end Eeprom

section Device

/-- Number of entries of `regs`. -/
def duartNregs : Nat := 16

/-- What the device keeps for one channel: the status `sra` or `srb`, and the
channel's entries of `mr_ptr`, `rx_queue`, `rx_head` and `rx_tail`.  `sent` is
what `duart_tx` has printed, the last byte first. -/
structure Channel where
  sr : BitVec 8
  mrPtr : Nat
  rxQueue : Vector (BitVec 8) 16
  rxHead : Nat
  rxTail : Nat
  sent : List (BitVec 8)
  deriving DecidableEq

/-- `struct duart`. -/
structure Duart where
  regs : Vector (BitVec 8) duartNregs
  a : Channel
  b : Channel
  logTx : Bool
  nv : Nvram
  opr : BitVec 8
  deriving DecidableEq

/-- `SR_TXRDY | SR_TXEMT`. -/
def txIdle : BitVec 8 := 0x0C#8

def Channel.new : Channel where
  sr := txIdle
  mrPtr := 0
  rxQueue := Vector.replicate 16 0#8
  rxHead := 0
  rxTail := 0
  sent := []

def duartNew : Duart where
  regs := Vector.replicate duartNregs 0#8
  a := Channel.new
  b := Channel.new
  logTx := true
  nv := nvramNew
  opr := 0#8

namespace Channel

/-- `duart_rx_has`. -/
def rxHas (c : Channel) : Bool :=
  c.rxHead ≠ c.rxTail

/-- `duart_rx_pop`. -/
def rxPop : Prog Channel (BitVec 8) := do
  let c ← get
  if c.rxHas then
    let byte ← StateT.lift c.rxQueue[c.rxHead]?
    set { c with rxHead := (c.rxHead + 1) % 16 }
    return byte
  else return 0#8

/-- `duart_feed_input`. -/
def feedInput (byte : BitVec 8) : Prog Channel Unit := do
  let c ← get
  let next := (c.rxTail + 1) % 16
  if next = c.rxHead then return
  else if bound : c.rxTail < 16 then
    set { c with rxQueue := c.rxQueue.set c.rxTail byte bound, rxTail := next }
  else StateT.lift none

/-- The status register, whose `RxRDY` a read refreshes. -/
def readStatus (c : Channel) : BitVec 8 × Channel :=
  let sr := if c.rxHas then c.sr ||| 0x01#8 else c.sr &&& 0xFE#8
  (sr, { c with sr := sr })

/-- A write to the transmit register. -/
def transmit (logTx : Bool) (byte : BitVec 8) (c : Channel) : Channel :=
  { c with sr := c.sr ||| txIdle, sent := if logTx then byte :: c.sent else c.sent }

/-- A write to the command register: code 1 points back to `MR1`. -/
def command (v : BitVec 8) (c : Channel) : Channel :=
  if v >>> 4 &&& 0x07#8 = 1#8 then { c with mrPtr := 0 } else c

end Channel

namespace Duart

/-- Run a program on channel A. -/
def onA {α : Type} (f : Prog Channel α) : Prog Duart α := fun d =>
  (f d.a).map fun (result, c) => (result, { d with a := c })

/-- Run a program on channel B. -/
def onB {α : Type} (f : Prog Channel α) : Prog Duart α := fun d =>
  (f d.b).map fun (result, c) => (result, { d with b := c })

/-- `d->regs[reg]`. -/
def getReg (reg : Nat) : Prog Duart (BitVec 8) := do
  let d ← get
  StateT.lift d.regs[reg]?

/-- `d->regs[reg] = v`. -/
def setReg (reg : Nat) (v : BitVec 8) : Prog Duart Unit := do
  let d ← get
  if bound : reg < duartNregs then set { d with regs := d.regs.set reg v bound }
  else StateT.lift none

end Duart

/-- `(offset / DUART_REG_STRIDE) & 0x1f`. -/
def duartReg (offset : Word) : Nat :=
  offset.toNat / 4 % 32

/-- `nvram_pins_from_opr`. -/
def nvramPinsFromOpr (opr : BitVec 8) : Word :=
  (if opr.getLsbD 4 then 1#32 else 0#32) |||
    (if opr.getLsbD 6 then 2#32 else 0#32) |||
    (if opr.getLsbD 5 then 4#32 else 0#32)

/-- `duart_read`. -/
def duartRead (offset : Word) : Prog Duart Word := do
  let d ← get
  let byte ← match duartReg offset with
    | 0x00 => Duart.getReg (0x00 + d.a.mrPtr)
    | 0x01 => Duart.onA fun c => some c.readStatus
    | 0x03 => Duart.onA Channel.rxPop
    | 0x08 => Duart.getReg (0x08 + d.b.mrPtr)
    | 0x09 => Duart.onB fun c => some c.readStatus
    | 0x0B => Duart.onB Channel.rxPop
    | 0x04 => do
        let ipcr ← Duart.getReg 0x04
        let dov := d.nv.read 0#32 &&& 1#32
        pure (ipcr &&& 0xFB#8 ||| if dov ≠ 0#32 then 0x04#8 else 0#8)
    | reg => Duart.getReg reg
  return byte.setWidth 32

/-- `duart_write`. -/
def duartWrite (offset value : Word) : Prog Duart Unit := do
  let d ← get
  let v := value.setWidth 8
  match duartReg offset with
  | 0x00 => do
      Duart.setReg (0x00 + d.a.mrPtr) v
      if d.a.mrPtr = 0 then modify fun d => { d with a := { d.a with mrPtr := 1 } }
  | 0x02 => modify fun d => { d with a := d.a.command v }
  | 0x03 => modify fun d => { d with a := d.a.transmit d.logTx v }
  | 0x08 => do
      Duart.setReg (0x08 + d.b.mrPtr) v
      if d.b.mrPtr = 0 then modify fun d => { d with b := { d.b with mrPtr := 1 } }
  | 0x0A => modify fun d => { d with b := d.b.command v }
  | 0x0B => modify fun d => { d with b := d.b.transmit d.logTx v }
  | 0x0F => do
      modify fun d => { d with opr := v, nv := d.nv.write 0#32 (nvramPinsFromOpr v) }
      Duart.setReg 0x0F v
  | reg => Duart.setReg reg v

end Device

end Ncd15.Emulator
