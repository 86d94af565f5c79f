import Ncd15.Emulator.Cpu
import Mathlib.Tactic.IntervalCases

/-!
# What one step of the interpreter does

`mips_step` reduces to fetch, execute and advance when no interrupt is
delivered and no program-counter hook fires.  The two instructions an exception
handler ends with, `jr` and `rfe`, get their own step lemmas.
-/

namespace Ncd15.Emulator

variable {δ : Type}

def Cpu.Running (cpu : Cpu δ) : Prop :=
  cpu.halted = false ∧ cpu.hostFault = false

instance (cpu : Cpu δ) : Decidable cpu.Running := instDecidableAnd

/-- No hard-coded hook fires at the current instruction. -/
def Cpu.HookFree (cpu : Cpu δ) : Prop :=
  cpu.bootRedirect = false ∧ cpu.pc ≠ 0x0EC17E44#32 ∧ cpu.pc ≠ 0x0EC0B854#32

instance (cpu : Cpu δ) : Decidable cpu.HookFree := instDecidableAnd

section Fetch

variable [Mmio δ]

/-- The machine right before its instruction is fetched. -/
def Cpu.prepared (cpu : Cpu δ) : Cpu δ :=
  (cpu.raiseInterrupts cpu.pc).recordPc.recordCycles

/-- The instruction word the next step executes when no interrupt is
delivered. -/
def Cpu.nextInsn (cpu : Cpu δ) : Word := (cpu.prepared.fetch cpu.pc).1

/-- The machine in which that instruction executes. -/
def Cpu.fetched (cpu : Cpu δ) : Cpu δ :=
  { (cpu.prepared.fetch cpu.pc).2 with branchTaken := false }

end Fetch

section Registers

/-- A change of memory, cache and interrupt inputs only. -/
structure SameRegisters (first second : Cpu δ) : Prop where
  pc : first.pc = second.pc
  nextPc : first.nextPc = second.nextPc
  r : first.r = second.r
  hi : first.hi = second.hi
  lo : first.lo = second.lo
  status : first.cp0Status = second.cp0Status
  epc : first.cp0Epc = second.cp0Epc
  slot : first.inDelaySlot = second.inDelaySlot
  halted : first.halted = second.halted
  hostFault : first.hostFault = second.hostFault

theorem SameRegisters.refl (cpu : Cpu δ) : SameRegisters cpu cpu :=
  ⟨rfl, rfl, rfl, rfl, rfl, rfl, rfl, rfl, rfl, rfl⟩

theorem SameRegisters.trans {first second third : Cpu δ}
    (left : SameRegisters first second) (right : SameRegisters second third) :
    SameRegisters first third :=
  ⟨left.pc.trans right.pc, left.nextPc.trans right.nextPc, left.r.trans right.r,
    left.hi.trans right.hi, left.lo.trans right.lo, left.status.trans right.status,
    left.epc.trans right.epc, left.slot.trans right.slot,
    left.halted.trans right.halted, left.hostFault.trans right.hostFault⟩

variable [Mmio δ]

theorem load_sameRegisters (cpu : Cpu δ) (va : Word) (size : Size) :
    SameRegisters (cpu.load va size).2 cpu :=
  ⟨rfl, rfl, rfl, rfl, rfl, rfl, rfl, rfl, rfl, rfl⟩

theorem refillWord_sameRegisters (cpu : Cpu δ) (index : BitVec 8)
    (lineBase : Word) (word : BitVec 2) :
    SameRegisters (cpu.refillWord index lineBase word) cpu :=
  ⟨rfl, rfl, rfl, rfl, rfl, rfl, rfl, rfl, rfl, rfl⟩

theorem refillWords_sameRegisters (cpu : Cpu δ) (index : BitVec 8)
    (lineBase : Word) (words : List (BitVec 2)) :
    SameRegisters (cpu.refillWords index lineBase words) cpu := by
  induction words generalizing cpu with
  | nil => exact SameRegisters.refl cpu
  | cons word words ih =>
      exact (ih (cpu.refillWord index lineBase word)).trans
        (refillWord_sameRegisters cpu index lineBase word)

theorem refillLine_sameRegisters (cpu : Cpu δ) (va : Word) :
    SameRegisters (cpu.refillLine va) cpu := by
  have filled := refillWords_sameRegisters cpu (icacheIndex (mipsVaToPa va))
    (va &&& ~~~15#32) [0, 1, 2, 3]
  exact ⟨filled.pc, filled.nextPc, filled.r, filled.hi, filled.lo, filled.status,
    filled.epc, filled.slot, filled.halted, filled.hostFault⟩

theorem fetchCached_sameRegisters (cpu : Cpu δ) (va : Word) :
    SameRegisters (cpu.fetchCached va).2 cpu := by
  unfold Cpu.fetchCached
  dsimp only
  split
  · exact refillLine_sameRegisters cpu va
  · exact SameRegisters.refl cpu

theorem fetch_sameRegisters (cpu : Cpu δ) (va : Word) :
    SameRegisters (cpu.fetch va).2 cpu := by
  unfold Cpu.fetch
  split
  · exact load_sameRegisters cpu va .four
  split
  · exact SameRegisters.refl cpu
  split
  · exact SameRegisters.refl cpu
  · exact fetchCached_sameRegisters cpu va

theorem prepared_sameRegisters (cpu : Cpu δ) : SameRegisters cpu.prepared cpu :=
  ⟨rfl, rfl, rfl, rfl, rfl, rfl, rfl, rfl, rfl, rfl⟩

theorem fetched_sameRegisters (cpu : Cpu δ) : SameRegisters cpu.fetched cpu := by
  have fetchSame := (fetch_sameRegisters cpu.prepared cpu.pc).trans
    (prepared_sameRegisters cpu)
  exact ⟨fetchSame.pc, fetchSame.nextPc, fetchSame.r, fetchSame.hi, fetchSame.lo,
    fetchSame.status, fetchSame.epc, fetchSame.slot, fetchSame.halted,
    fetchSame.hostFault⟩

end Registers

section Step

variable [Mmio δ]

/-- Without a hook at the current instruction, the hooks only record the cycle
count. -/
theorem pcHooks_of_hookFree {cpu : Cpu δ} (hookFree : cpu.HookFree) :
    (cpu.raiseInterrupts cpu.pc).recordPc.pcHooks = cpu.prepared := by
  obtain ⟨-, noProbe, noLance⟩ := hookFree
  have probe : (cpu.raiseInterrupts cpu.pc).recordPc.probeHook =
      (cpu.raiseInterrupts cpu.pc).recordPc :=
    if_neg fun hooked => noProbe hooked.1
  have lance : cpu.prepared.lanceHook = cpu.prepared := if_neg noLance
  rw [Cpu.pcHooks, probe]
  exact lance

theorem stepInstruction_eq {cpu : Cpu δ} (noRedirect : cpu.recordPc.bootRedirect = false) :
    cpu.stepInstruction =
      ({ (cpu.recordPc.pcHooks.fetch cpu.pc).2 with branchTaken := false }.execute cpu.pc
        (cpu.recordPc.pcHooks.fetch cpu.pc).1).advance := by
  have stay : ¬ cpu.recordPc.bootRedirect = true := by
    rw [noRedirect]
    decide
  unfold Cpu.stepInstruction
  rw [if_neg stay]

theorem stepInstruction_of_hookFree {cpu : Cpu δ} (hookFree : cpu.HookFree) :
    (cpu.raiseInterrupts cpu.pc).stepInstruction =
      (cpu.fetched.execute cpu.pc cpu.nextInsn).advance := by
  have noRedirect : (cpu.raiseInterrupts cpu.pc).recordPc.bootRedirect = false :=
    hookFree.1
  have samePc : (cpu.raiseInterrupts cpu.pc).pc = cpu.pc := rfl
  rw [stepInstruction_eq noRedirect, pcHooks_of_hookFree hookFree, samePc]
  rfl

theorem mipsStep_of_quiet {cpu : Cpu δ} (running : cpu.Running)
    (hookFree : cpu.HookFree)
    (quiet : (cpu.raiseInterrupts cpu.pc).interruptPending = false) :
    cpu.mipsStep = (cpu.fetched.execute cpu.pc cpu.nextInsn).advance := by
  rw [← stepInstruction_of_hookFree hookFree]
  simp [Cpu.mipsStep, running.1, running.2, Cpu.checkInterrupts, quiet]

/-- With IEc clear nothing is delivered. -/
theorem quiet_of_iec_clear {cpu : Cpu δ} (iecClear : cpu.cp0Status &&& 1#32 = 0) :
    (cpu.raiseInterrupts cpu.pc).interruptPending = false := by
  have sameStatus : (cpu.raiseInterrupts cpu.pc).cp0Status = cpu.cp0Status := rfl
  simp [Cpu.interruptPending, sameStatus, iecClear]

theorem execute_jr (cpu : Cpu δ) {pc insn : Word} (special : op insn = 0x00)
    (isJr : funct insn = 0x08) :
    cpu.execute pc insn = cpu.doBranch (cpu.r (rs insn)) := by
  simp [Cpu.execute, special, Cpu.execSpecial, isJr]

theorem execute_rfe (cpu : Cpu δ) {pc insn : Word} (cop0 : op insn = 0x10)
    (isCo : (rs insn).toNat = 0x10) (isRfe : funct insn = 0x10) :
    cpu.execute pc insn =
      { cpu with
        cp0Status :=
          (cpu.cp0Status &&& ~~~0xF#32) ||| ((cpu.cp0Status >>> 2) &&& 0xF#32) } := by
  simp [Cpu.execute, cop0, Cpu.execCop0, isCo, isRfe]

theorem execute_syscall (cpu : Cpu δ) {pc insn : Word} (special : op insn = 0x00)
    (isSyscall : funct insn = 0x0C) :
    cpu.execute pc insn = cpu.syscall pc := by
  simp [Cpu.execute, special, Cpu.execSpecial, isSyscall]

end Step

section Status

/-- The status word after exception entry and `rfe`: the current and previous
KU/IE bits come back, the rest of the word keeps its value or the old pair. -/
theorem rfe_after_exception (status : Word) :
    let entry := (status &&& ~~~0x3F#32) ||| (((status &&& 0x3F#32) <<< 2) &&& 0x3C#32)
    ((entry &&& ~~~0xF#32) ||| ((entry >>> 2) &&& 0xF#32)) &&& 0xF#32 =
      status &&& 0xF#32 := by
  intro entry
  apply BitVec.eq_of_getLsbD_eq
  intro i bound
  simp only [entry, BitVec.getLsbD_and, BitVec.getLsbD_or, BitVec.getLsbD_not,
    BitVec.getLsbD_ushiftRight, BitVec.getLsbD_shiftLeft]
  interval_cases i <;> simp

theorem iec_clear_after_exception (status : Word) :
    ((status &&& ~~~0x3F#32) ||| (((status &&& 0x3F#32) <<< 2) &&& 0x3C#32)) &&& 1#32 = 0 := by
  apply BitVec.eq_of_getLsbD_eq
  intro i bound
  simp only [BitVec.getLsbD_and, BitVec.getLsbD_or, BitVec.getLsbD_not,
    BitVec.getLsbD_shiftLeft]
  interval_cases i <;> simp

theorem bev_after_exception (status : Word) :
    ((status &&& ~~~0x3F#32) ||| (((status &&& 0x3F#32) <<< 2) &&& 0x3C#32)) &&&
      0x00400000#32 = status &&& 0x00400000#32 := by
  apply BitVec.eq_of_getLsbD_eq
  intro i bound
  simp only [BitVec.getLsbD_and, BitVec.getLsbD_or, BitVec.getLsbD_not,
    BitVec.getLsbD_shiftLeft]
  interval_cases i <;> simp

end Status

section BareMachine

/-- A machine without devices. -/
instance : Mmio Unit where
  read devices _ _ _ := (0, devices)
  write devices _ _ _ _ := devices
  lanceIrq _ := false

/-- A machine about to execute `0x80001000` with the given bytes in DRAM, its caches
empty and nothing pending. -/
def bareMachine (dram : Nat → BitVec 8) : Cpu Unit where
  pc := 0x80001000#32
  nextPc := 0x80001004#32
  r _ := 0
  hi := 0
  lo := 0
  cp0Status := 0
  cp0Cause := 0
  cp0Epc := 0
  cp0Badvaddr := 0
  cp0Prid := 0
  inDelaySlot := false
  branchTaken := false
  branchTarget := 0
  bus :=
    { rom := fun _ => 0
      dram := dram
      shadow := fun _ => 0
      vram := fun _ => 0
      devices := ()
      lastPc := 0
      curCycles := 0
      injectIp := 0
      injectMask := 0
      injectServer := 0
      injectGateway := 0
      hasFlash := false
      flash := fun _ => 0
      flashSize := 0
      ecoffBytes := []
      ecoffPreloaded := false
      bootFlash := false
      flashEntry := 0
      bootFlashDone := false
      nextIrqCycle := 0
      cacheIsolated := false
      lanceIrqPrev := false
      xncdRunning := false }
  cycles := 0
  halted := false
  icache _ := { tag := 0xFFFFFFFF#32, words := fun _ => 0 }
  forceProbePass := false
  hostFault := false

end BareMachine

end Ncd15.Emulator
