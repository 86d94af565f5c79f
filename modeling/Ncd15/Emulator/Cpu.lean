import Ncd15.Emulator.Bus

/-!
# The MIPS-I interpreter

`mips_step` and everything it calls: instruction fetch through the
direct-mapped instruction cache, the decoder, the two-counter delay-slot
scheme, and interrupt delivery.  Tracing and the diagnostic call stack are left
out; the hard-coded program-counter hooks are kept.
-/

namespace Ncd15.Emulator

abbrev Reg := BitVec 5

/-- A line of the instruction cache: four words and the tag `0xFFFFFFFF` when
it is invalid. -/
structure IcacheLine where
  tag : Word
  words : BitVec 2 → Word

/-- `mips_cpu`, with the bus it points to.  `hostFault` is set when the
interpreter executes a division the host machine traps on. -/
structure Cpu (δ : Type) where
  pc : Word
  nextPc : Word
  r : Reg → Word
  hi : Word
  lo : Word
  cp0Status : Word
  cp0Cause : Word
  cp0Epc : Word
  cp0Badvaddr : Word
  cp0Prid : Word
  inDelaySlot : Bool
  branchTaken : Bool
  branchTarget : Word
  bus : Bus δ
  cycles : BitVec 64
  halted : Bool
  icache : BitVec 8 → IcacheLine
  /-- `NCD15_FORCE_PROBE_PASS` is set in the environment. -/
  forceProbePass : Bool
  hostFault : Bool

section Decode

/-- `OP(x)`. -/
def op (insn : Word) : Nat := (insn.extractLsb' 26 6).toNat
/-- `RS(x)`. -/
def rs (insn : Word) : Reg := insn.extractLsb' 21 5
/-- `RT(x)`. -/
def rt (insn : Word) : Reg := insn.extractLsb' 16 5
/-- `RD(x)`. -/
def rd (insn : Word) : Reg := insn.extractLsb' 11 5
/-- `SHAMT(x)`. -/
def shamt (insn : Word) : Nat := (insn.extractLsb' 6 5).toNat
/-- `FUNCT(x)`. -/
def funct (insn : Word) : Nat := (insn.extractLsb' 0 6).toNat
/-- `IMM(x)`. -/
def imm (insn : Word) : Word := insn &&& 0xFFFF#32
/-- `sign_ext16(IMM(x))`. -/
def simm (insn : Word) : Word := (insn.setWidth 16).signExtend 32
/-- `TARGET(x) << 2` within the segment of the delay slot. -/
def jumpTarget (pc insn : Word) : Word :=
  ((pc + 4) &&& 0xF0000000#32) ||| ((insn &&& 0x03FFFFFF#32) <<< 2)

end Decode

variable {δ : Type}

/-- `wr_reg`: register 0 is never written. -/
def Cpu.wrReg (cpu : Cpu δ) (i : Reg) (v : Word) : Cpu δ :=
  if i ≠ 0 then { cpu with r := Function.update cpu.r i v } else cpu

theorem wrReg_self (cpu : Cpu δ) {i : Reg} (nonzero : i ≠ 0) (v : Word) :
    (cpu.wrReg i v).r i = v := by
  rw [Cpu.wrReg, if_pos nonzero]
  exact Function.update_self i v cpu.r

def Cpu.doBranch (cpu : Cpu δ) (target : Word) : Cpu δ :=
  { cpu with branchTaken := true, branchTarget := target }

/-- A conditional branch to the target encoded in the instruction. -/
def Cpu.branchIf (cpu : Cpu δ) (pc insn : Word) (cond : Bool) : Cpu δ :=
  if cond then cpu.doBranch ((pc + 4) + (simm insn <<< 2)) else cpu

section Icache

def icacheFlushAll (c : BitVec 8 → IcacheLine) : BitVec 8 → IcacheLine :=
  fun index => { c index with tag := 0xFFFFFFFF#32 }

/-- The set a physical address falls into. -/
def icacheIndex (pa : Word) : BitVec 8 := pa.extractLsb' 4 8

/-- Everything above the index bits. -/
def icacheTag (pa : Word) : Word := pa >>> 12

def icacheInvalidate (c : BitVec 8 → IcacheLine) (pa : Word) : BitVec 8 → IcacheLine :=
  let index := icacheIndex pa
  if (c index).tag = icacheTag pa then
    Function.update c index { c index with tag := 0xFFFFFFFF#32 }
  else c

variable [Mmio δ]

/-- `bus_read` as the CPU sees it: the read may flush the instruction cache. -/
def Cpu.load (cpu : Cpu δ) (va : Word) (size : Size) : Word × Cpu δ :=
  let (value, bus, flushed) := busRead cpu.bus va size
  (value, { cpu with
    bus := bus
    icache := if flushed then icacheFlushAll cpu.icache else cpu.icache })

/-- Whether the address lies in KSEG1. -/
def uncached (va : Word) : Bool := 0xA0000000#32 ≤ va ∧ va < 0xC0000000#32

/-- `bus_write` by one of the store instructions SB, SH and SW, with the cache
invalidation that follows it. -/
def Cpu.store (cpu : Cpu δ) (va value : Word) (size : Size) : Cpu δ :=
  { cpu with
    bus := busWrite cpu.bus va value size
    icache :=
      if uncached va then cpu.icache else icacheInvalidate cpu.icache (mipsVaToPa va) }

/-- The refill of one word of a cache line. -/
def Cpu.refillWord (cpu : Cpu δ) (index : BitVec 8) (lineBase : Word)
    (word : BitVec 2) : Cpu δ :=
  let (value, cpu) := cpu.load (lineBase + word.setWidth 32 * 4) .four
  { cpu with
    icache := Function.update cpu.icache index
      { cpu.icache index with words := Function.update (cpu.icache index).words word value } }

/-- The refill loop over the words of a line. -/
def Cpu.refillWords (cpu : Cpu δ) (index : BitVec 8) (lineBase : Word)
    (words : List (BitVec 2)) : Cpu δ :=
  words.foldl (fun cpu word => cpu.refillWord index lineBase word) cpu

/-- The refill of a cache line on a miss. -/
def Cpu.refillLine (cpu : Cpu δ) (va : Word) : Cpu δ :=
  let index := icacheIndex (mipsVaToPa va)
  let filled := cpu.refillWords index (va &&& ~~~15#32) [0, 1, 2, 3]
  { filled with
    icache := Function.update filled.icache index
      { filled.icache index with tag := icacheTag (mipsVaToPa va) } }

/-- A fetch through the instruction cache. -/
def Cpu.fetchCached (cpu : Cpu δ) (va : Word) : Word × Cpu δ :=
  let pa := mipsVaToPa va
  let cpu :=
    if (cpu.icache (icacheIndex pa)).tag ≠ icacheTag pa then cpu.refillLine va else cpu
  ((cpu.icache (icacheIndex pa)).words (pa.extractLsb' 2 2), cpu)

/-- `fetch`, with its safety stub `jr $ra; nop` at physical 0. -/
def Cpu.fetch (cpu : Cpu δ) (va : Word) : Word × Cpu δ :=
  if uncached va then cpu.load va .four
  else if mipsVaToPa va = 0x00000000#32 then (0x03E00008#32, cpu)
  else if mipsVaToPa va = 0x00000004#32 then (0x00000000#32, cpu)
  else cpu.fetchCached va

end Icache

def Cpu.takeException (cpu : Cpu δ) (pc exccode : Word) : Cpu δ :=
  let ki := cpu.cp0Status &&& 0x3F#32
  let status := (cpu.cp0Status &&& ~~~0x3F#32) ||| ((ki <<< 2) &&& 0x3C#32)
  let cause := (cpu.cp0Cause &&& ~~~0x8000007F#32) ||| ((exccode &&& 0x1F#32) <<< 2)
  let vector := if status &&& 0x00400000#32 ≠ 0 then 0xBFC00180#32 else 0x80000080#32
  { cpu with
    cp0Epc := if cpu.inDelaySlot then pc - 4 else pc
    cp0Status := status
    cp0Cause := if cpu.inDelaySlot then cause ||| 0x80000000#32 else cause
    pc := vector
    nextPc := vector + 4
    branchTaken := false
    inDelaySlot := false }

def Cpu.unhandled (cpu : Cpu δ) : Cpu δ :=
  { cpu with halted := true }

/-- The 32-bit pattern of a truth value. -/
def ofBool (b : Bool) : Word := if b then 1#32 else 0#32

section Execute

variable [Mmio δ]

/-- The SYSCALL case of `exec_special`. -/
def Cpu.syscall (cpu : Cpu δ) (pc : Word) : Cpu δ :=
  let (vec, cpu) := cpu.load 0x80000080#32 .four
  if vec ≠ 0 then cpu.takeException pc 8
  else
    -- the fallback when no kernel handler is installed: `$a0 = 1` prints `$a1`
    let cpu :=
      if cpu.r 4 = 1 then
        { cpu with bus := busWrite cpu.bus 0xBE88002C#32 (cpu.r 5 &&& 0xFF#32) .one }
      else cpu
    { cpu with
      r := Function.update cpu.r 2 0
      nextPc := pc + 4
      branchTaken := false }

def Cpu.execSpecial (cpu : Cpu δ) (pc insn : Word) : Cpu δ :=
  let s := cpu.r (rs insn)
  let t := cpu.r (rt insn)
  let write := cpu.wrReg (rd insn)
  match funct insn with
  | 0x00 => write (t <<< shamt insn)
  | 0x02 => write (t >>> shamt insn)
  | 0x03 => write (t.sshiftRight (shamt insn))
  | 0x04 => write (t <<< (s &&& 31).toNat)
  | 0x06 => write (t >>> (s &&& 31).toNat)
  | 0x07 => write (t.sshiftRight (s &&& 31).toNat)
  | 0x08 => cpu.doBranch s
  | 0x09 => (write (pc + 8)).doBranch s
  | 0x0C => cpu.syscall pc
  | 0x0D => cpu.unhandled
  | 0x10 => write cpu.hi
  | 0x11 => { cpu with hi := s }
  | 0x12 => write cpu.lo
  | 0x13 => { cpu with lo := s }
  | 0x18 =>
      let p := s.signExtend 64 * t.signExtend 64
      { cpu with lo := p.setWidth 32, hi := (p >>> 32).setWidth 32 }
  | 0x19 =>
      let p := s.setWidth 64 * t.setWidth 64
      { cpu with lo := p.setWidth 32, hi := (p >>> 32).setWidth 32 }
  | 0x1A =>
      if t = 0 then
        { cpu with hi := s, lo := if s.slt 0 then 1 else 0xFFFFFFFF#32 }
      else if s = 0x80000000#32 ∧ t = 0xFFFFFFFF#32 then { cpu with hostFault := true }
      else { cpu with lo := s.sdiv t, hi := s.srem t }
  | 0x1B =>
      if t = 0 then { cpu with hi := s, lo := 0xFFFFFFFF#32 }
      else { cpu with lo := s / t, hi := s % t }
  | 0x20 | 0x21 => write (s + t)
  | 0x22 | 0x23 => write (s - t)
  | 0x24 => write (s &&& t)
  | 0x25 => write (s ||| t)
  | 0x26 => write (s ^^^ t)
  | 0x27 => write (~~~(s ||| t))
  | 0x2A => write (ofBool (s.slt t))
  | 0x2B => write (ofBool (s.ult t))
  | _ => cpu.unhandled

def Cpu.execRegimm (cpu : Cpu δ) (pc insn : Word) : Cpu δ :=
  let s := cpu.r (rs insn)
  match (rt insn).toNat with
  | 0x00 => cpu.branchIf pc insn (s.slt 0)
  | 0x01 => cpu.branchIf pc insn (!s.slt 0)
  | 0x10 => (cpu.wrReg 31 (pc + 8)).branchIf pc insn (s.slt 0)
  | 0x11 => (cpu.wrReg 31 (pc + 8)).branchIf pc insn (!s.slt 0)
  | _ => cpu.unhandled

def Cpu.execCop0 (cpu : Cpu δ) (insn : Word) : Cpu δ :=
  match (rs insn).toNat with
  | 0x00 =>
      cpu.wrReg (rt insn) <|
        match (rd insn).toNat with
        | 8 => cpu.cp0Badvaddr
        | 12 => cpu.cp0Status
        | 13 => cpu.cp0Cause
        | 14 => cpu.cp0Epc
        | 15 => cpu.cp0Prid
        | _ => 0
  | 0x04 =>
      let v := cpu.r (rt insn)
      match (rd insn).toNat with
      | 8 => { cpu with cp0Badvaddr := v }
      | 12 =>
          { cpu with
            cp0Status := v
            icache :=
              if v &&& 0x10000#32 ≠ 0 ∧ cpu.cp0Status &&& 0x10000#32 = 0 then
                icacheFlushAll cpu.icache
              else cpu.icache }
      | 13 => { cpu with cp0Cause := v }
      | 14 => { cpu with cp0Epc := v }
      | 7 => { cpu with bus := { cpu.bus with cacheIsolated := v &&& 0x2000#32 ≠ 0 } }
      | _ => cpu
  | 0x10 =>
      match funct insn with
      | 0x10 =>
          { cpu with
            cp0Status :=
              (cpu.cp0Status &&& ~~~0xF#32) ||| ((cpu.cp0Status >>> 2) &&& 0xF#32) }
      | _ => cpu
  | _ => cpu.unhandled

def Cpu.address (cpu : Cpu δ) (insn : Word) : Word :=
  cpu.r (rs insn) + simm insn

/-- `(1u << shift) - 1`, and 0 for a shift of 0. -/
def lowMask (shift : Nat) : Word := (1#32 <<< shift) - 1

/-- `~0u << (32 - shift)`, and 0 for a shift of 0. -/
def highMask (shift : Nat) : Word :=
  if shift = 0 then 0 else 0xFFFFFFFF#32 <<< (32 - shift)

/-- The `switch (OP(insn))` of `mips_step`. -/
def Cpu.execute (cpu : Cpu δ) (pc insn : Word) : Cpu δ :=
  let s := cpu.r (rs insn)
  let t := cpu.r (rt insn)
  let write := cpu.wrReg (rt insn)
  let a := cpu.address insn
  match op insn with
  | 0x00 => cpu.execSpecial pc insn
  | 0x01 => cpu.execRegimm pc insn
  | 0x02 => cpu.doBranch (jumpTarget pc insn)
  | 0x03 => (cpu.wrReg 31 (pc + 8)).doBranch (jumpTarget pc insn)
  | 0x04 => cpu.branchIf pc insn (s = t)
  | 0x05 => cpu.branchIf pc insn (s ≠ t)
  | 0x06 => cpu.branchIf pc insn (s.sle 0)
  | 0x07 => cpu.branchIf pc insn (!s.sle 0)
  | 0x08 | 0x09 => write (s + simm insn)
  | 0x0A => write (ofBool (s.slt (simm insn)))
  | 0x0B => write (ofBool (s.ult (simm insn)))
  | 0x0C => write (s &&& imm insn)
  | 0x0D => write (s ||| imm insn)
  | 0x0E => write (s ^^^ imm insn)
  | 0x0F => write (imm insn <<< 16)
  | 0x10 => cpu.execCop0 insn
  | 0x20 =>
      let (v, cpu) := cpu.load a .one
      cpu.wrReg (rt insn) ((v.setWidth 8).signExtend 32)
  | 0x21 =>
      let (v, cpu) := cpu.load a .two
      cpu.wrReg (rt insn) ((v.setWidth 16).signExtend 32)
  | 0x23 =>
      let (v, cpu) := cpu.load a .four
      cpu.wrReg (rt insn) v
  | 0x24 =>
      let (v, cpu) := cpu.load a .one
      cpu.wrReg (rt insn) v
  | 0x25 =>
      let (v, cpu) := cpu.load a .two
      cpu.wrReg (rt insn) v
  | 0x28 => cpu.store a (t &&& 0xFF#32) .one
  | 0x29 => cpu.store a (t &&& 0xFFFF#32) .two
  | 0x2B => cpu.store a t .four
  | 0x22 =>
      let shift := (a &&& 3).toNat * 8
      let (word, cpu) := cpu.load (a &&& ~~~3#32) .four
      cpu.wrReg (rt insn) ((cpu.r (rt insn) &&& lowMask shift) ||| (word <<< (24 - shift)))
  | 0x26 =>
      let shift := (3 - (a &&& 3).toNat) * 8
      let (word, cpu) := cpu.load (a &&& ~~~3#32) .four
      cpu.wrReg (rt insn) ((cpu.r (rt insn) &&& highMask shift) ||| (word >>> shift))
  | 0x2A =>
      let shift := (a &&& 3).toNat * 8
      let (mem, cpu) := cpu.load (a &&& ~~~3#32) .four
      let v := (mem &&& ~~~lowMask shift) ||| (cpu.r (rt insn) >>> (24 - shift))
      { cpu with bus := busWrite cpu.bus (a &&& ~~~3#32) v .four }
  | 0x2E =>
      let shift := (3 - (a &&& 3).toNat) * 8
      let (mem, cpu) := cpu.load (a &&& ~~~3#32) .four
      let v := (mem &&& highMask shift) ||| (cpu.r (rt insn) <<< shift)
      { cpu with bus := busWrite cpu.bus (a &&& ~~~3#32) v .four }
  | _ => cpu.unhandled

/-- The interrupt sources of `check_interrupts`: the periodic timer on IP5 and
the edge-triggered LANCE line on IP2. -/
def Cpu.raiseInterrupts (cpu : Cpu δ) (pc : Word) : Cpu δ :=
  let b := cpu.bus
  let timer := b.ecoffPreloaded ∧ b.nextIrqCycle ≤ cpu.cycles
  let cause := if timer then cpu.cp0Cause ||| 0x2000#32 else cpu.cp0Cause
  let next := if timer then cpu.cycles + 50000 else b.nextIrqCycle
  let running := b.xncdRunning || pc &&& 0xFFF00000#32 = 0x8ED00000#32
  let irq := Mmio.lanceIrq b.devices
  let cause :=
    if running ∧ irq ∧ ¬ b.lanceIrqPrev then cause ||| 0x400#32
    else if running ∧ ¬ irq ∧ b.lanceIrqPrev then cause &&& ~~~0x400#32
    else cause
  { cpu with
    cp0Cause := cause
    bus := { b with nextIrqCycle := next, xncdRunning := running, lanceIrqPrev := irq } }

/-- Some enabled interrupt is pending: `pending & mask`, with IEc set. -/
def Cpu.interruptPending (cpu : Cpu δ) : Bool :=
  cpu.cp0Status &&& 1#32 ≠ 0 ∧
    ((cpu.cp0Cause >>> 8) &&& 0xFF#32) &&& ((cpu.cp0Status >>> 8) &&& 0xFF#32) ≠ 0

def Cpu.checkInterrupts (cpu : Cpu δ) (pc : Word) : Cpu δ :=
  let cpu := cpu.raiseInterrupts pc
  if cpu.interruptPending then cpu.takeException pc 0 else cpu

/-- The `--boot-flash` hook fires at this instruction. -/
def Cpu.bootRedirect (cpu : Cpu δ) : Bool :=
  cpu.bus.bootFlash ∧ ¬ cpu.bus.bootFlashDone ∧ cpu.bus.flashEntry ≠ 0 ∧
    cpu.pc = 0x0EC0EB6C#32

/-- The `--boot-flash` hook: re-blit the flash image and continue at its entry. -/
def Cpu.bootFlashEntry (cpu : Cpu δ) : Cpu δ :=
  let cpu := { cpu with
    bus := { cpu.bus with bootFlashDone := true, ecoffPreloaded := false } }
  let (_, cpu) := cpu.load 0xBF800000#32 .four
  { cpu with pc := cpu.bus.flashEntry, nextPc := cpu.bus.flashEntry + 4 }

def Cpu.recordCycles (cpu : Cpu δ) : Cpu δ :=
  { cpu with bus := { cpu.bus with curCycles := cpu.cycles } }

/-- The `NCD15_FORCE_PROBE_PASS` hook at the exit of the wire probe. -/
def Cpu.probeHook (cpu : Cpu δ) : Cpu δ :=
  if cpu.pc = 0x0EC17E44#32 ∧ cpu.forceProbePass then
    { cpu with r := Function.update cpu.r 2 0 }
  else cpu

/-- The hook that claims the LANCE was detected. -/
def Cpu.lanceHook (cpu : Cpu δ) : Cpu δ :=
  if cpu.pc = 0x0EC0B854#32 then { cpu with r := Function.update cpu.r 2 1 } else cpu

/-- The register hooks at hard-coded program counters. -/
def Cpu.pcHooks (cpu : Cpu δ) : Cpu δ :=
  cpu.probeHook.recordCycles.lanceHook

/-- The end of `mips_step`: the program counters move on. -/
def Cpu.advance (cpu : Cpu δ) : Cpu δ :=
  { cpu with
    pc := cpu.nextPc
    nextPc := if cpu.branchTaken then cpu.branchTarget else cpu.nextPc + 4
    cycles := cpu.cycles + 1 }

def Cpu.recordPc (cpu : Cpu δ) : Cpu δ :=
  { cpu with bus := { cpu.bus with lastPc := cpu.pc } }

/-- `mips_step` after the interrupt check. -/
def Cpu.stepInstruction (cpu : Cpu δ) : Cpu δ :=
  if cpu.recordPc.bootRedirect then cpu.recordPc.bootFlashEntry
  else
    let (insn, fetched) := cpu.recordPc.pcHooks.fetch cpu.pc
    ({ fetched with branchTaken := false }.execute cpu.pc insn).advance

def Cpu.mipsStep (cpu : Cpu δ) : Cpu δ :=
  if cpu.halted ∨ cpu.hostFault then cpu
  else (cpu.checkInterrupts cpu.pc).stepInstruction

/-- The state after a number of steps. -/
def Cpu.mipsRun (cpu : Cpu δ) (steps : Nat) : Cpu δ :=
  Cpu.mipsStep^[steps] cpu

end Execute

end Ncd15.Emulator
