import Ncd15.Emulator.Interrupts

/-!
# The SYSCALL round trip

The exception handler that `start.S` copies to the vector, and what a system
call through it is meant to do.  `mips_step` moves the program counters on after
`take_exception` has set them, so the handler is entered at its second
instruction and the stack frame is never opened.
-/

namespace Ncd15.Emulator

variable {δ : Type}

/-- The exception vector with BEV clear. -/
def generalVector : Word := 0x80000080#32

def jalTo (dispatch : Word) : Word :=
  0x0C000000#32 ||| ((dispatch >>> 2) &&& 0x03FFFFFF#32)

/-- `_exc_handler_text` of `start.S`: the frame is opened and the caller-saved
registers stored, `bdos_dispatch(v0, a0, a1)` is called, the registers are loaded
and the frame is closed, and the return goes to EPC + 4. -/
def excHandlerText (dispatch : Word) : List Word :=
  [0x27BDFFC8#32, 0xAFA10004#32, 0xAFA3000C#32, 0xAFA40010#32, 0xAFA50014#32,
    0xAFA60018#32, 0xAFA7001C#32, 0xAFA80020#32, 0xAFA90024#32, 0xAFAA0028#32,
    0xAFAB002C#32, 0xAFAC0030#32, 0xAFBF0034#32,
    0x00A03025#32, 0x00802825#32, jalTo dispatch, 0x00402025#32,
    0x8FA10004#32, 0x8FA3000C#32, 0x8FA40010#32, 0x8FA50014#32, 0x8FA60018#32,
    0x8FA7001C#32, 0x8FA80020#32, 0x8FA90024#32, 0x8FAA0028#32, 0x8FAB002C#32,
    0x8FAC0030#32, 0x8FBF0034#32, 0x27BD0038#32,
    0x401A7000#32, 0x00000000#32, 0x275A0004#32, 0x03400008#32, 0x42000010#32]

/-- The registers of the handler's frame: `at`, `v1`, `a0`..`a3`, `t0`..`t4`, `ra`. -/
def savedRegs : List Reg := [1, 3, 4, 5, 6, 7, 8, 9, 10, 11, 12, 31]

/-- The registers a callee preserves: `s0`..`s7`, `sp`, `fp`. -/
def calleeSaved : List Reg := [16, 17, 18, 19, 20, 21, 22, 23, 29, 30]

def dramOffset (va : Word) : Nat := (mipsVaToPa va &&& (dramSize - 1)).toNat

def SameMemoryFrom (va : Word) (first second : Cpu δ) : Prop :=
  ∀ offset, dramOffset va ≤ offset → offset < dramSize.toNat →
    first.bus.dram offset = second.bus.dram offset

theorem takeException_pcs {cpu : Cpu δ} (pc exccode : Word)
    (bevClear : cpu.cp0Status &&& 0x00400000#32 = 0) :
    (cpu.takeException pc exccode).pc = generalVector ∧
      (cpu.takeException pc exccode).nextPc = generalVector + 4 ∧
      (cpu.takeException pc exccode).branchTaken = false := by
  have bev := (bev_after_exception cpu.cp0Status).trans bevClear
  have vector : (cpu.takeException pc exccode).pc = generalVector :=
    if_neg fun set => set bev
  exact ⟨vector, congrArg (· + 4#32) vector, rfl⟩

variable [Mmio δ]

/-- The next instruction is SYSCALL, outside a delay slot, with BEV clear, no
interrupt to deliver and the handler of `start.S` at the vector. -/
structure SyscallReady (cpu : Cpu δ) (dispatch : Word) : Prop where
  running : cpu.Running
  hookFree : cpu.HookFree
  sequential : cpu.nextPc = cpu.pc + 4
  notInSlot : cpu.inDelaySlot = false
  bevClear : cpu.cp0Status &&& 0x00400000#32 = 0
  quiet : (cpu.raiseInterrupts cpu.pc).interruptPending = false
  special : op cpu.nextInsn = 0x00
  isSyscall : funct cpu.nextInsn = 0x0C
  installed : ∀ index word, (excHandlerText dispatch)[index]? = some word →
    ldBe cpu.fetched.bus.dram (0x80 + 4 * index) .four = word

/-- `bdos_dispatch`, entered after `enter` steps, returns after `leave` steps as
the o32 calling convention promises. -/
structure DispatchCall (cpu : Cpu δ) (dispatch : Word) (enter leave : Nat) : Prop where
  order : enter ≤ leave
  entered : (cpu.mipsRun enter).pc = dispatch
  left : (cpu.mipsRun leave).pc = (cpu.mipsRun enter).r 31
  leftSequential : (cpu.mipsRun leave).nextPc = (cpu.mipsRun leave).pc + 4
  running : (cpu.mipsRun leave).Running
  preserved : ∀ i ∈ calleeSaved, (cpu.mipsRun leave).r i = (cpu.mipsRun enter).r i
  memory : SameMemoryFrom ((cpu.mipsRun enter).r 29 + 16)
    (cpu.mipsRun leave) (cpu.mipsRun enter)
  status : (cpu.mipsRun leave).cp0Status = (cpu.mipsRun enter).cp0Status
  epc : (cpu.mipsRun leave).cp0Epc = (cpu.mipsRun enter).cp0Epc

/-- The state in which the caller of a system call finds the machine again. -/
structure ReturnsToCaller (cpu atReturn after : Cpu δ) : Prop where
  pc : after.pc = cpu.pc + 4
  result : after.r 2 = atReturn.r 2
  sp : after.r 29 = cpu.r 29
  saved : ∀ i ∈ savedRegs, after.r i = cpu.r i
  kuIe : after.cp0Status &&& 0xF#32 = cpu.cp0Status &&& 0xF#32
  memory : SameMemoryFrom (cpu.r 29) after cpu

/-- A system call takes the machine to the first instruction of the handler,
and from every return of the dispatcher on to the caller. -/
structure SyscallRoundTrip (cpu : Cpu δ) (dispatch : Word) : Prop where
  firstInstruction : cpu.mipsStep.pc = generalVector
  returns : ∀ enter leave, DispatchCall cpu dispatch enter leave →
    ∃ back, leave ≤ back ∧ ReturnsToCaller cpu (cpu.mipsRun leave) (cpu.mipsRun back)

theorem load_generalVector (cpu : Cpu δ) :
    (cpu.load generalVector .four).1 = ldBe cpu.bus.dram 0x80 .four := by
  have physical : mipsVaToPa generalVector = 0x80#32 := by decide
  simp [Cpu.load, busRead, physical, dramSize]

/-- With a handler installed, SYSCALL enters the exception. -/
theorem syscall_of_installed {cpu : Cpu δ} (pc : Word)
    (installed : ldBe cpu.bus.dram 0x80 .four ≠ 0) :
    cpu.syscall pc = (cpu.load generalVector .four).2.takeException pc 8 := by
  have vector : (cpu.load generalVector .four).1 ≠ 0 := by
    rw [load_generalVector]
    exact installed
  unfold Cpu.syscall
  exact if_pos vector

/-- The step over SYSCALL ends one instruction behind the vector, with the
registers the program had. -/
theorem mipsStep_syscall {cpu : Cpu δ} {dispatch : Word}
    (ready : SyscallReady cpu dispatch) :
    cpu.mipsStep.pc = generalVector + 4 ∧ cpu.mipsStep.nextPc = generalVector + 8 ∧
      cpu.mipsStep.r = cpu.r := by
  have same := fetched_sameRegisters cpu
  have installed : ldBe cpu.fetched.bus.dram 0x80 .four ≠ 0 := by
    rw [ready.installed 0 0x27BDFFC8#32 rfl]
    decide
  have loaded := load_sameRegisters cpu.fetched generalVector .four
  have bevClear : (cpu.fetched.load generalVector .four).2.cp0Status &&&
      0x00400000#32 = 0 := by
    rw [loaded.status, same.status]
    exact ready.bevClear
  obtain ⟨-, entryNext, entryTaken⟩ := takeException_pcs cpu.pc 8 bevClear
  have step : cpu.mipsStep =
      ((cpu.fetched.load generalVector .four).2.takeException cpu.pc 8).advance := by
    rw [mipsStep_of_quiet ready.running ready.hookFree ready.quiet,
      execute_syscall cpu.fetched ready.special ready.isSyscall,
      syscall_of_installed cpu.pc installed]
  refine ⟨?_, ?_, ?_⟩
  · rw [step, Cpu.advance, entryNext]
  · simp only [step, Cpu.advance, entryNext, entryTaken, Bool.false_eq_true, if_false]
    decide
  · rw [step]
    exact loaded.r.trans same.r

/-- No system call makes the round trip: the handler never starts at its first
instruction. -/
theorem syscall_roundTrip_never {cpu : Cpu δ} {dispatch : Word}
    (ready : SyscallReady cpu dispatch) : ¬ SyscallRoundTrip cpu dispatch := by
  intro roundTrip
  have vector := roundTrip.firstInstruction
  rw [(mipsStep_syscall ready).1] at vector
  revert vector
  decide

/-- SYSCALL at `0x80001000`, and a dispatcher at `0x80002000` that answers 7. -/
def syscallMachine : Cpu Unit :=
  let handled := storeWords (fun _ => 0) 0x80 (excHandlerText 0x80002000#32)
  let called := storeWords handled 0x1000 [0x0000000C#32]
  { bareMachine (storeWords called 0x2000 [0x03E00008#32, 0x24020007#32]) with
    r := Function.update (fun _ => 0) 29 0x80100000#32 }

theorem syscallReady_syscallMachine : SyscallReady syscallMachine 0x80002000#32 := by
  constructor
  case installed =>
    intro index word found
    have bound := (List.getElem?_eq_some_iff.mp found).1
    simp only [excHandlerText, List.length_cons, List.length_nil] at bound
    revert found
    interval_cases index <;> (intro found; cases found; decide +kernel)
  all_goals decide +kernel

theorem syscall_roundTrip_never_at : ¬ SyscallRoundTrip syscallMachine 0x80002000#32 :=
  syscall_roundTrip_never syscallReady_syscallMachine

/-- The call comes back to the instruction behind SYSCALL with the stack pointer
56 bytes too high. -/
theorem syscall_leaks_frame :
    SyscallReady syscallMachine 0x80002000#32 ∧
      ¬ SyscallRoundTrip syscallMachine 0x80002000#32 ∧
      (syscallMachine.mipsRun 37).pc = syscallMachine.pc + 4 ∧
      (syscallMachine.mipsRun 37).r 2 = 7#32 ∧
      (syscallMachine.mipsRun 37).r 29 = syscallMachine.r 29 + 56#32 := by
  refine ⟨syscallReady_syscallMachine, ?_, by decide +kernel, by decide +kernel,
    by decide +kernel⟩
  intro roundTrip
  have vector := roundTrip.firstInstruction
  revert vector
  decide +kernel

end Ncd15.Emulator
