import Ncd15.Emulator.Step

/-!
# Interrupt delivery and the return from it

`take_exception` records where the interrupted program stood, and the handler
goes back there with `jr` and `rfe`.  The return lands on the pair
`(EPC, EPC + 4)`, so it restores the interrupted pair of program counters
exactly when that pair was sequential: the flag `in_delay_slot` that should
send EPC back to the branch is never set.
-/

namespace Ncd15.Emulator

variable {δ : Type}

/-- Two machines show the same architectural state, the registers `k0` and `k1`
aside: registers, HI/LO, both program counters, and the current and previous
KU/IE bits. -/
structure SameArch (first second : Cpu δ) : Prop where
  r : ∀ i : Reg, i ≠ 26 → i ≠ 27 → first.r i = second.r i
  hi : first.hi = second.hi
  lo : first.lo = second.lo
  pc : first.pc = second.pc
  nextPc : first.nextPc = second.nextPc
  kuIe : first.cp0Status &&& 0xF#32 = second.cp0Status &&& 0xF#32

section DelaySlotFlag

theorem wrReg_inDelaySlot (cpu : Cpu δ) (i : Reg) (v : Word) :
    (cpu.wrReg i v).inDelaySlot = cpu.inDelaySlot := by
  unfold Cpu.wrReg
  split <;> rfl

theorem branchIf_inDelaySlot (cpu : Cpu δ) (pc insn : Word) (cond : Bool) :
    (cpu.branchIf pc insn cond).inDelaySlot = cpu.inDelaySlot := by
  unfold Cpu.branchIf
  split <;> rfl

theorem execRegimm_inDelaySlot (cpu : Cpu δ) (pc insn : Word) :
    (cpu.execRegimm pc insn).inDelaySlot = cpu.inDelaySlot := by
  unfold Cpu.execRegimm
  dsimp only
  split <;> simp only [branchIf_inDelaySlot, wrReg_inDelaySlot, Cpu.unhandled]

theorem execCop0_inDelaySlot (cpu : Cpu δ) (insn : Word) :
    (cpu.execCop0 insn).inDelaySlot = cpu.inDelaySlot := by
  unfold Cpu.execCop0
  dsimp only
  split
  · exact wrReg_inDelaySlot _ _ _
  · split <;> rfl
  · split <;> rfl
  · rfl

theorem probeHook_inDelaySlot (cpu : Cpu δ) :
    cpu.probeHook.inDelaySlot = cpu.inDelaySlot := by
  unfold Cpu.probeHook
  split <;> rfl

theorem lanceHook_inDelaySlot (cpu : Cpu δ) :
    cpu.lanceHook.inDelaySlot = cpu.inDelaySlot := by
  unfold Cpu.lanceHook
  split <;> rfl

variable [Mmio δ]

theorem syscall_inDelaySlot {cpu : Cpu δ} (pc : Word)
    (notInSlot : cpu.inDelaySlot = false) :
    (cpu.syscall pc).inDelaySlot = false := by
  have loaded := (load_sameRegisters cpu 0x80000080#32 .four).slot
  unfold Cpu.syscall
  dsimp only
  split
  · rfl
  · split <;> exact loaded.trans notInSlot

theorem execSpecial_inDelaySlot {cpu : Cpu δ} (pc insn : Word)
    (notInSlot : cpu.inDelaySlot = false) :
    (cpu.execSpecial pc insn).inDelaySlot = false := by
  unfold Cpu.execSpecial
  dsimp only
  split <;> first
    | exact (wrReg_inDelaySlot _ _ _).trans notInSlot
    | exact syscall_inDelaySlot pc notInSlot
    | exact notInSlot
    | (split <;> first | exact notInSlot | (split <;> exact notInSlot))

theorem execute_inDelaySlot {cpu : Cpu δ} (pc insn : Word)
    (notInSlot : cpu.inDelaySlot = false) :
    (cpu.execute pc insn).inDelaySlot = false := by
  have loaded (va : Word) (size : Size) :
      (cpu.load va size).2.inDelaySlot = false :=
    (load_sameRegisters cpu va size).slot.trans notInSlot
  unfold Cpu.execute
  dsimp only
  split <;> first
    | exact execSpecial_inDelaySlot pc insn notInSlot
    | exact (execRegimm_inDelaySlot _ _ _).trans notInSlot
    | exact (execCop0_inDelaySlot _ _).trans notInSlot
    | exact (branchIf_inDelaySlot _ _ _ _).trans notInSlot
    | exact (wrReg_inDelaySlot _ _ _).trans notInSlot
    | exact (wrReg_inDelaySlot _ _ _).trans (loaded _ _)
    | exact notInSlot

theorem checkInterrupts_inDelaySlot {cpu : Cpu δ} (pc : Word)
    (notInSlot : cpu.inDelaySlot = false) :
    (cpu.checkInterrupts pc).inDelaySlot = false := by
  unfold Cpu.checkInterrupts
  dsimp only
  split
  · rfl
  · exact notInSlot

theorem mipsStep_inDelaySlot {cpu : Cpu δ} (notInSlot : cpu.inDelaySlot = false) :
    cpu.mipsStep.inDelaySlot = false := by
  unfold Cpu.mipsStep
  split
  · exact notInSlot
  have checked := checkInterrupts_inDelaySlot cpu.pc notInSlot
  generalize cpu.checkInterrupts cpu.pc = checkedCpu at checked
  unfold Cpu.stepInstruction
  split
  · exact checked
  · have hooked : checkedCpu.recordPc.pcHooks.inDelaySlot = false := by
      rw [Cpu.pcHooks, lanceHook_inDelaySlot]
      exact (probeHook_inDelaySlot _).trans checked
    have fetchSame := fetch_sameRegisters checkedCpu.recordPc.pcHooks checkedCpu.pc
    exact execute_inDelaySlot _ _ (fetchSame.slot.trans hooked)

/-- The flag that exception entry consults stays clear in every run. -/
theorem mipsRun_inDelaySlot {cpu : Cpu δ} (notInSlot : cpu.inDelaySlot = false)
    (steps : Nat) : (cpu.mipsRun steps).inDelaySlot = false := by
  induction steps with
  | zero => exact notInSlot
  | succ steps ih =>
      rw [Cpu.mipsRun, Function.iterate_succ_apply']
      exact mipsStep_inDelaySlot ih

end DelaySlotFlag

section Delivery

variable [Mmio δ]

/-- The next `mips_step` delivers a pending enabled interrupt. -/
def Cpu.DeliversInterrupt (cpu : Cpu δ) : Prop :=
  cpu.Running ∧ (cpu.raiseInterrupts cpu.pc).interruptPending = true

instance (cpu : Cpu δ) : Decidable cpu.DeliversInterrupt := instDecidableAnd

/-- The machine at the exception vector, before the first handler
instruction. -/
def Cpu.interruptEntry (cpu : Cpu δ) : Cpu δ :=
  (cpu.raiseInterrupts cpu.pc).takeException cpu.pc 0

/-- A handler run: the interrupt is delivered, and after `steps` steps the
handler has changed only `k0` and `k1`, acknowledged the interrupts that were
enabled, and stands at a `jr` through the EPC it read, with `rfe` in the delay
slot. -/
structure HandlerRun (cpu : Cpu δ) (steps : Nat) : Prop where
  delivers : cpu.DeliversInterrupt
  r : ∀ i : Reg, i ≠ 26 → i ≠ 27 → (cpu.mipsRun steps).r i = cpu.r i
  hi : (cpu.mipsRun steps).hi = cpu.hi
  lo : (cpu.mipsRun steps).lo = cpu.lo
  status : (cpu.mipsRun steps).cp0Status = cpu.interruptEntry.cp0Status
  acknowledged :
    (((cpu.mipsRun steps).cp0Cause >>> 8) &&& 0xFF#32) &&&
      ((cpu.cp0Status >>> 8) &&& 0xFF#32) = 0
  running : (cpu.mipsRun steps).Running
  sequential : (cpu.mipsRun steps).nextPc = (cpu.mipsRun steps).pc + 4
  jrHookFree : (cpu.mipsRun steps).HookFree
  jrSpecial : op (cpu.mipsRun steps).nextInsn = 0x00
  jrFunct : funct (cpu.mipsRun steps).nextInsn = 0x08
  jrEpc :
    (cpu.mipsRun steps).r (rs (cpu.mipsRun steps).nextInsn) = cpu.interruptEntry.cp0Epc
  rfeHookFree : (cpu.mipsRun steps).mipsStep.HookFree
  rfeCop0 : op (cpu.mipsRun steps).mipsStep.nextInsn = 0x10
  rfeCo : (rs (cpu.mipsRun steps).mipsStep.nextInsn).toNat = 0x10
  rfeFunct : funct (cpu.mipsRun steps).mipsStep.nextInsn = 0x10

/-- The interrupted program resumes: the machine shows the interrupted state
again, or the state at the branch whose delay slot was interrupted. -/
def Resumes (cpu after : Cpu δ) : Prop :=
  SameArch after cpu ∨
    ∃ branch : Cpu δ, branch.nextPc = cpu.pc ∧ SameArch branch.mipsStep cpu ∧
      SameArch after branch

/-- The `jr` of the handler moves to its delay slot. -/
theorem mipsStep_jr {cpu : Cpu δ} (running : cpu.Running) (hookFree : cpu.HookFree)
    (iecClear : cpu.cp0Status &&& 1#32 = 0)
    (special : op cpu.nextInsn = 0x00) (isJr : funct cpu.nextInsn = 0x08) :
    cpu.mipsStep = (cpu.fetched.doBranch (cpu.r (rs cpu.nextInsn))).advance := by
  rw [mipsStep_of_quiet running hookFree (quiet_of_iec_clear iecClear),
    execute_jr cpu.fetched special isJr, (fetched_sameRegisters cpu).r]

theorem mipsStep_rfe {cpu : Cpu δ} (running : cpu.Running) (hookFree : cpu.HookFree)
    (iecClear : cpu.cp0Status &&& 1#32 = 0) (cop0 : op cpu.nextInsn = 0x10)
    (isCo : (rs cpu.nextInsn).toNat = 0x10) (isRfe : funct cpu.nextInsn = 0x10) :
    cpu.mipsStep.r = cpu.r ∧ cpu.mipsStep.hi = cpu.hi ∧ cpu.mipsStep.lo = cpu.lo ∧
      cpu.mipsStep.pc = cpu.nextPc ∧ cpu.mipsStep.nextPc = cpu.nextPc + 4 ∧
      cpu.mipsStep.cp0Status =
        (cpu.cp0Status &&& ~~~0xF#32) ||| ((cpu.cp0Status >>> 2) &&& 0xF#32) := by
  have same := fetched_sameRegisters cpu
  rw [mipsStep_of_quiet running hookFree (quiet_of_iec_clear iecClear),
    execute_rfe cpu.fetched cop0 isCo isRfe, ← same.r, ← same.hi, ← same.lo,
    ← same.nextPc, ← same.status]
  exact ⟨rfl, rfl, rfl, rfl, rfl, rfl⟩

/-- Where a handler run ends: everything but `k0` and `k1` is back, and the
program counters are EPC and EPC + 4. -/
theorem handlerRun_returns {cpu : Cpu δ} {steps : Nat}
    (handler : HandlerRun cpu steps) :
    (∀ i : Reg, i ≠ 26 → i ≠ 27 → (cpu.mipsRun (steps + 2)).r i = cpu.r i) ∧
      (cpu.mipsRun (steps + 2)).hi = cpu.hi ∧ (cpu.mipsRun (steps + 2)).lo = cpu.lo ∧
      (cpu.mipsRun (steps + 2)).pc = cpu.interruptEntry.cp0Epc ∧
      (cpu.mipsRun (steps + 2)).nextPc = cpu.interruptEntry.cp0Epc + 4 ∧
      (cpu.mipsRun (steps + 2)).cp0Status &&& 0xF#32 = cpu.cp0Status &&& 0xF#32 := by
  have twoSteps : cpu.mipsRun (steps + 2) = (cpu.mipsRun steps).mipsStep.mipsStep := by
    rw [Cpu.mipsRun, Function.iterate_succ_apply', Function.iterate_succ_apply']
    rfl
  have iecClear : (cpu.mipsRun steps).cp0Status &&& 1#32 = 0 := by
    rw [handler.status]
    exact iec_clear_after_exception cpu.cp0Status
  have jrStep := mipsStep_jr handler.running handler.jrHookFree iecClear
    handler.jrSpecial handler.jrFunct
  have atJr := fetched_sameRegisters (cpu.mipsRun steps)
  have slotStatus : (cpu.mipsRun steps).mipsStep.cp0Status =
      (cpu.mipsRun steps).cp0Status := by
    rw [jrStep]
    exact atJr.status
  have slotRunning : (cpu.mipsRun steps).mipsStep.Running := by
    rw [jrStep]
    exact ⟨atJr.halted.trans handler.running.1, atJr.hostFault.trans handler.running.2⟩
  have slotNext : (cpu.mipsRun steps).mipsStep.nextPc = cpu.interruptEntry.cp0Epc := by
    rw [jrStep, ← handler.jrEpc]
    rfl
  obtain ⟨regs, hiEq, loEq, pcEq, nextEq, statusEq⟩ :=
    mipsStep_rfe slotRunning handler.rfeHookFree (by rw [slotStatus]; exact iecClear)
      handler.rfeCop0 handler.rfeCo handler.rfeFunct
  have slotRegs : (cpu.mipsRun steps).mipsStep.r = (cpu.mipsRun steps).r := by
    rw [jrStep]
    exact atJr.r
  rw [twoSteps, pcEq, nextEq, statusEq, slotNext, slotStatus, handler.status]
  refine ⟨?_, ?_, ?_, rfl, rfl, rfe_after_exception cpu.cp0Status⟩
  · intro i notK0 notK1
    rw [regs, slotRegs]
    exact handler.r i notK0 notK1
  · rw [hiEq, jrStep]
    exact atJr.hi.trans handler.hi
  · rw [loEq, jrStep]
    exact atJr.lo.trans handler.lo

end Delivery

section TimerMachine

/-- `mtc0 $0,cause; mfc0 k0,epc; jr k0; rfe`. -/
def acknowledgeHandler : List Word :=
  [0x40806800#32, 0x401A7000#32, 0x03400008#32, 0x42000010#32]

/-- The given code at `0x80001000`, the handler at the exception vector, and a
timer interrupt due after the first instruction. -/
def timerMachine (code : List Word) : Cpu Unit :=
  let bare := bareMachine (storeWords (storeWords (fun _ => 0) 0x80 acknowledgeHandler)
    0x1000 code)
  { bare with
    cp0Status := 0x2001#32
    bus := { bare.bus with ecoffPreloaded := true, nextIrqCycle := 1 } }

/-- The timer fires after one instruction, and the handler runs. -/
def timerProgram (first : Word) : Cpu Unit :=
  (timerMachine [first, 0#32, 0x0000000D#32]).mipsStep

/-- `j 0x80002000`. -/
def jump : Word := 0x08000800#32

theorem handlerRun_timerProgram_nop : HandlerRun (timerProgram 0#32) 2 := by
  constructor <;> decide +kernel

theorem handlerRun_timerProgram_jump : HandlerRun (timerProgram jump) 2 := by
  constructor <;> decide +kernel

theorem mipsStep_of_halted {cpu : Cpu δ} [Mmio δ] (halted : cpu.halted = true) :
    cpu.mipsStep = cpu := by
  simp [Cpu.mipsStep, halted]

theorem mipsRun_of_halted {cpu : Cpu δ} [Mmio δ] (halted : cpu.halted = true)
    (steps : Nat) : cpu.mipsRun steps = cpu := by
  induction steps with
  | zero => rfl
  | succ steps ih =>
      rw [Cpu.mipsRun, Function.iterate_succ_apply', ← Cpu.mipsRun, ih]
      exact mipsStep_of_halted halted

end TimerMachine

end Ncd15.Emulator
