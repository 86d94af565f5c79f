import Mathlib.Data.BitVec
import Mathlib.Logic.Function.Basic

/-!
# The memory bus of the emulator

Physical address decoding as `bus_read` and `bus_write` perform it, big-endian
throughout.  The devices behind the memory-mapped regions are kept abstract:
a `Mmio` instance says what a register access does to the device state, and
everything the bus itself decides is spelled out.
-/

namespace Ncd15.Emulator

abbrev Word := BitVec 32

/-- Access sizes of `bus_read` and `bus_write`, in bytes. -/
inductive Size
  | one
  | two
  | four
  deriving DecidableEq, Repr

/-- The regions registered with `bus_add_mmio`, in the order of registration. -/
inductive Region
  | duart
  | vramArb
  | vidctl
  | memctl
  | lance
  | lanceShmem
  | crtc
  | stub
  deriving DecidableEq, Repr

def Region.start : Region → Word
  | .duart => 0x1E880000#32
  | .vramArb => 0x1E200000#32
  | .vidctl => 0x0F000000#32
  | .memctl => 0xFFFE0000#32
  | .lance => 0x1E482000#32
  | .lanceShmem => 0x1E480000#32
  | .crtc => 0x1E380000#32
  | .stub => 0x10000000#32

def Region.length : Region → Word
  | .duart => 0x80#32
  | .vramArb => 0x10#32
  | .vidctl => 4#32
  | .memctl => 0x100#32
  | .lance => 0x10#32
  | .lanceShmem => 0x40000#32
  | .crtc => 0x100#32
  | .stub => 0xD0000000#32

/-- What the device callbacks do, and the level of the LANCE interrupt line
that the glue mirrors into the bus. -/
class Mmio (δ : Type) where
  read : δ → Region → Word → Size → Word × δ
  write : δ → Region → Word → Word → Size → δ
  lanceIrq : δ → Bool

/-- `struct bus`, less its tracing fields.  A byte array is a function of the
offset into it. -/
structure Bus (δ : Type) where
  rom : Nat → BitVec 8
  dram : Nat → BitVec 8
  shadow : Nat → BitVec 8
  vram : Nat → BitVec 8
  devices : δ
  lastPc : Word
  curCycles : BitVec 64
  injectIp : Word
  injectMask : Word
  injectServer : Word
  injectGateway : Word
  /-- `b->flash != NULL`. -/
  hasFlash : Bool
  flash : Nat → BitVec 8
  flashSize : Nat
  /-- The bytes of the ECOFF file behind `--flash`, empty when there is none. -/
  ecoffBytes : List (BitVec 8)
  ecoffPreloaded : Bool
  bootFlash : Bool
  flashEntry : Word
  bootFlashDone : Bool
  nextIrqCycle : BitVec 64
  cacheIsolated : Bool
  lanceIrqPrev : Bool
  xncdRunning : Bool

/-- R3052 segmentation: KSEG0 and KSEG1 are windows on physical memory. -/
def mipsVaToPa (va : Word) : Word :=
  if 0xC0000000#32 ≤ va then va
  else if 0xA0000000#32 ≤ va then va - 0xA0000000#32
  else if 0x80000000#32 ≤ va then va - 0x80000000#32
  else va

/-- Big-endian load from a byte buffer. -/
def ldBe (bytes : Nat → BitVec 8) (offset : Nat) : Size → Word
  | .one => (bytes offset).setWidth 32
  | .two => (bytes offset ++ bytes (offset + 1)).setWidth 32
  | .four =>
      bytes offset ++ bytes (offset + 1) ++ bytes (offset + 2) ++ bytes (offset + 3)

/-- Big-endian store into a byte buffer. -/
def stBe (bytes : Nat → BitVec 8) (offset : Nat) (value : Word) :
    Size → Nat → BitVec 8
  | .one => Function.update bytes offset (value.setWidth 8)
  | .two =>
      Function.update
        (Function.update bytes offset ((value >>> 8).setWidth 8))
        (offset + 1) (value.setWidth 8)
  | .four =>
      Function.update
        (Function.update
          (Function.update
            (Function.update bytes offset ((value >>> 24).setWidth 8))
            (offset + 1) ((value >>> 16).setWidth 8))
          (offset + 2) ((value >>> 8).setWidth 8))
        (offset + 3) (value.setWidth 8)

/-- `find_mmio`: the first registered region that covers the address. -/
def findMmio (pa : Word) : Option Region :=
  [Region.duart, .vramArb, .vidctl, .memctl, .lance, .lanceShmem, .crtc, .stub].find?
    fun region => region.start ≤ pa ∧ pa < region.start + region.length

/-- Whether the code at `pc` runs from shadow RAM, the guard of the read
intercepts. -/
def shadowResident (pc : Word) : Bool :=
  0x0EC00000#32 ≤ pc ∧ pc < 0x0F000000#32

variable {δ : Type}

/-- The reads of shadow RAM that are answered by the emulator instead of the
array, with the shadow array after the read. -/
def shadowIntercept (b : Bus δ) (pa : Word) (size : Size) :
    Option (Word × (Nat → BitVec 8)) :=
  if pa = 0x0EC01440#32 ∧ size = .two ∧ shadowResident b.lastPc then
    some (1#32, b.shadow)
  else if pa = 0x0EC00730#32 ∧ size = .four ∧ shadowResident b.lastPc then
    let ticks : Word := (b.curCycles / 50000#64).setWidth 32
    some (ticks, stBe b.shadow 0x730 ticks .four)
  else if pa = 0x0EC000C8#32 ∧ size = .four ∧ b.injectIp ≠ 0 ∧
      shadowResident b.lastPc then
    some (b.injectIp, b.shadow)
  else if pa = 0x0EC000EC#32 ∧ size = .four ∧ b.injectMask ≠ 0 ∧
      shadowResident b.lastPc then
    some (b.injectMask, b.shadow)
  else if pa = 0x0EC00104#32 ∧ size = .four ∧ b.injectServer ≠ 0 ∧
      shadowResident b.lastPc then
    some (b.injectServer, b.shadow)
  else if pa = 0x0EC000CC#32 ∧ size = .four ∧ b.injectGateway ≠ 0 ∧
      shadowResident b.lastPc then
    some (b.injectGateway, b.shadow)
  else if pa = 0x0EC0148C#32 ∧ size = .one ∧ shadowResident b.lastPc then
    some (0#32, b.shadow)
  else if pa = 0x0EC008EC#32 ∧ size = .four ∧ shadowResident b.lastPc then
    some (0xBE482006#32, b.shadow)
  else if pa = 0x0EC008F0#32 ∧ size = .four ∧ shadowResident b.lastPc then
    some (0xBE482004#32, b.shadow)
  else if pa = 0x0EC00C58#32 ∧ size = .four ∧
      0x0EC11774#32 ≤ b.lastPc ∧ b.lastPc < 0x0EC1238C#32 then
    some (ldBe b.shadow 0xC58 .four &&& ~~~0x200#32, b.shadow)
  else if pa = 0x0EC00DC0#32 ∧ size = .four ∧ shadowResident b.lastPc then
    some (0x04000000#32, b.shadow)
  else if pa = 0x0EC00168#32 ∧ size = .one ∧ b.hasFlash ∧
      shadowResident b.lastPc then
    some (1#32, b.shadow)
  else if pa = 0x0EC00DD4#32 ∧ size = .four ∧ b.hasFlash ∧
      shadowResident b.lastPc then
    some (1#32, b.shadow)
  else none

/-- A byte of the ECOFF file; the file is `ecoff_size` bytes long. -/
def Bus.ecoff (b : Bus δ) (offset : Nat) : BitVec 8 :=
  b.ecoffBytes.getD offset 0

/-- One round of the section loop of the lazy re-blit. -/
def blitSection (b : Bus δ) (shadow : Nat → BitVec 8) (index : Nat) :
    Nat → BitVec 8 :=
  let sh := 0x4C + index * 40
  let paddr := ldBe b.ecoff (sh + 8) .four
  let ssize := ldBe b.ecoff (sh + 16) .four
  let scnptr := ldBe b.ecoff (sh + 20) .four
  let phys := paddr &&& 0x1FFFFFFF#32
  if scnptr = 0 ∨ ssize = 0 then shadow
  else if b.ecoffBytes.length < scnptr.toNat + ssize.toNat then shadow
  else if phys < 0x0EC00000#32 ∨ 0x0F000000#32 < phys + ssize then shadow
  else
    let target := (phys - 0x0EC00000#32).toNat
    fun offset =>
      if target ≤ offset ∧ offset < target + ssize.toNat then
        b.ecoff (scnptr.toNat + (offset - target))
      else shadow offset

/-- `xncd_handler`, the synthetic exception handler. -/
def xncdHandler : List Word :=
  [0x401a6800#32, 0x401b6000#32, 0x00000000#32, 0x035bd024#32, 0x335b0400#32,
    0x13600005#32, 0x00000000#32, 0x3c1a8ee8#32, 0x375a3860#32, 0x03400008#32,
    0x00000000#32, 0x3c1b8eec#32, 0x977a2d9c#32, 0x00000000#32, 0x275a0001#32,
    0xa77a2d9c#32, 0x401a6800#32, 0x00000000#32, 0x3c1bffff#32, 0x377b03ff#32,
    0x035bd024#32, 0x409a6800#32, 0x00000000#32, 0x401a7000#32, 0x00000000#32,
    0x03400008#32, 0x42000010#32]

/-- Store consecutive words from `offset` on. -/
def storeWords (bytes : Nat → BitVec 8) (offset : Nat) : List Word → Nat → BitVec 8
  | [] => bytes
  | word :: words => storeWords (stBe bytes offset word .four) (offset + 4) words

/-- Whether a read of the flash window has to re-blit the ECOFF sections. -/
def Bus.needsReblit (b : Bus δ) : Bool :=
  !b.ecoffPreloaded && 0x140 ≤ b.ecoffBytes.length

/-- The lazy re-blit: sections into shadow RAM, the synthetic handler into
DRAM. -/
def Bus.reblit (b : Bus δ) : Bus δ :=
  let nscns := (ldBe b.ecoff 2 .two).toNat
  { b with
    shadow := (List.range nscns).foldl (blitSection b) b.shadow
    dram := storeWords b.dram 0x80 xncdHandler
    ecoffPreloaded := true }

/-- Number of bytes of an array of `NCD15_DRAM_SIZE`. -/
def dramSize : Word := 0x00400000#32

/-- `bus_read`.  The last component says whether the read flushed the
instruction cache, which the re-blit does through `g_cpu`. -/
def busRead [Mmio δ] (b : Bus δ) (va : Word) (size : Size) : Word × Bus δ × Bool :=
  let pa := mipsVaToPa va
  if 0x1FC00000#32 ≤ pa ∧ pa < 0x1FC00000#32 + 0x00040000#32 then
    (ldBe b.rom (pa - 0x1FC00000#32).toNat size, b, false)
  else if 0x0EC00000#32 ≤ pa ∧ pa < 0x0F000000#32 then
    match shadowIntercept b pa size with
    | some (value, shadow) => (value, { b with shadow := shadow }, false)
    | none => (ldBe b.shadow (pa - 0x0EC00000#32).toNat size, b, false)
  else if b.hasFlash ∧ 0x1F800000#32 ≤ pa ∧ pa.toNat < 0x1F800000 + b.flashSize then
    let offset := (pa - 0x1F800000#32).toNat
    if b.needsReblit then (ldBe b.flash offset size, b.reblit, true)
    else (ldBe b.flash offset size, b, false)
  else if pa < 0x0EC00000#32 then
    (ldBe b.dram (pa &&& (dramSize - 1)).toNat size, b, false)
  else
    match findMmio pa with
    | some region =>
        let result := Mmio.read b.devices region (pa - region.start) size
        (result.1, { b with devices := result.2 }, false)
    | none =>
        if 0x0EC80000#32 ≤ pa ∧ pa < 0x0EC80000#32 + 0x00080000#32 then
          (ldBe b.vram (pa - 0x0EC80000#32).toNat size, b, false)
        else (0xFFFFFFFF#32, b, false)

def busWrite [Mmio δ] (b : Bus δ) (va value : Word) (size : Size) : Bus δ :=
  let pa := mipsVaToPa va
  if 0x1FC00000#32 ≤ pa ∧ pa < 0x1FC00000#32 + 0x00040000#32 then b
  else if b.cacheIsolated then b
  else if 0x0EC00000#32 ≤ pa ∧ pa < 0x0F000000#32 then
    { b with shadow := stBe b.shadow (pa - 0x0EC00000#32).toNat value size }
  else if pa < 0x0EC00000#32 then
    { b with dram := stBe b.dram (pa &&& (dramSize - 1)).toNat value size }
  else
    match findMmio pa with
    | some region =>
        { b with devices := Mmio.write b.devices region (pa - region.start) value size }
    | none =>
        if 0x0EC80000#32 ≤ pa ∧ pa < 0x0EC80000#32 + 0x00080000#32 then
          { b with vram := stBe b.vram (pa - 0x0EC80000#32).toNat value size }
        else b

end Ncd15.Emulator
