import Ncd15.Emulator.Interrupts

/-!
# Delay slots over whole runs

The control flow of the MIPS-I definition, stated with an address and the
target of a taken branch whose slot is still to run, and the run of the
interpreter followed in lockstep.  The interpreter keeps two program counters
instead; they agree with the definition in every run without a fallback
SYSCALL in the slot of a taken branch.
-/

namespace Ncd15.Emulator

section Definition

/-- The branches and jumps of MIPS-I. -/
def isBranch (insn : Word) : Bool :=
  op insn = 0x00 ∧ (funct insn = 0x08 ∨ funct insn = 0x09) ∨
    op insn = 0x01 ∧ (rt insn).toNat ∈ [0x00, 0x01, 0x10, 0x11] ∨
    op insn ∈ [0x02, 0x03, 0x04, 0x05, 0x06, 0x07]

/-- Where a branch or jump goes when it is taken. -/
def branchDest (r : Reg → Word) (pc insn : Word) : Option Word :=
  let offset := pc + 4 + (simm insn <<< 2)
  let s := r (rs insn)
  match op insn with
  | 0x00 => if funct insn = 0x08 ∨ funct insn = 0x09 then some s else none
  | 0x01 =>
      match (rt insn).toNat with
      | 0x00 | 0x10 => if s.slt 0 then some offset else none
      | 0x01 | 0x11 => if !s.slt 0 then some offset else none
      | _ => none
  | 0x02 | 0x03 => some (jumpTarget pc insn)
  | 0x04 => if s = r (rt insn) then some offset else none
  | 0x05 => if s ≠ r (rt insn) then some offset else none
  | 0x06 => if s.sle 0 then some offset else none
  | 0x07 => if !s.sle 0 then some offset else none
  | _ => none

/-- The register that receives the return address. -/
def linkReg (insn : Word) : Option Reg :=
  match op insn with
  | 0x00 => if funct insn = 0x09 then some (rd insn) else none
  | 0x01 => if (rt insn).toNat = 0x10 ∨ (rt insn).toNat = 0x11 then some 31 else none
  | 0x03 => some 31
  | _ => none

def isSyscall (insn : Word) : Bool :=
  op insn = 0x00 ∧ funct insn = 0x0C

/-- The address of the next instruction, and the target of the branch before it
when that was taken. -/
structure Control where
  pc : Word
  slot : Option Word

/-- One instruction in the MIPS-I definition: a slot instruction hands over to
the target, any other to its successor. -/
def Control.next (c : Control) (r : Reg → Word) (insn : Word) : Control :=
  match c.slot with
  | some target => ⟨target, none⟩
  | none => ⟨c.pc + 4, branchDest r c.pc insn⟩

theorem isBranch_of_dest {r : Reg → Word} {pc insn target : Word}
    (dest : branchDest r pc insn = some target) : isBranch insn = true := by
  unfold branchDest at dest
  dsimp only at dest
  split at dest
  case h_1 special =>
    split at dest
    case isTrue jump => simp [isBranch, special, jump]
    case isFalse => cases dest
  case h_2 regimm =>
    split at dest
    case h_5 => cases dest
    all_goals simp_all [isBranch]
  case h_9 => cases dest
  all_goals simp_all [isBranch]

end Definition

variable {δ : Type}

/-- The branch that the instruction just executed takes. -/
def Cpu.taken (cpu : Cpu δ) : Option Word :=
  if cpu.branchTaken then some cpu.branchTarget else none

section Pieces

variable (cpu : Cpu δ)

@[simp] theorem doBranch_taken (target : Word) : (cpu.doBranch target).taken = some target := rfl

@[simp] theorem doBranch_nextPc (target : Word) :
    (cpu.doBranch target).nextPc = cpu.nextPc := rfl

@[simp] theorem wrReg_taken (i : Reg) (v : Word) : (cpu.wrReg i v).taken = cpu.taken := by
  unfold Cpu.wrReg
  split <;> rfl

@[simp] theorem wrReg_nextPc (i : Reg) (v : Word) : (cpu.wrReg i v).nextPc = cpu.nextPc := by
  unfold Cpu.wrReg
  split <;> rfl

theorem branchIf_taken (pc insn : Word) (cond : Bool) :
    (cpu.branchIf pc insn cond).taken =
      if cond then some (pc + 4 + (simm insn <<< 2)) else cpu.taken := by
  unfold Cpu.branchIf
  split <;> rfl

@[simp] theorem branchIf_nextPc (pc insn : Word) (cond : Bool) :
    (cpu.branchIf pc insn cond).nextPc = cpu.nextPc := by
  unfold Cpu.branchIf
  split <;> rfl

@[simp] theorem unhandled_taken : cpu.unhandled.taken = cpu.taken := rfl

@[simp] theorem unhandled_nextPc : cpu.unhandled.nextPc = cpu.nextPc := rfl

@[simp] theorem doBranch_r (target : Word) : (cpu.doBranch target).r = cpu.r := rfl

theorem branchIf_r (pc insn : Word) (cond : Bool) :
    (cpu.branchIf pc insn cond).r = cpu.r := by
  unfold Cpu.branchIf
  split <;> rfl

theorem wrReg_zero (i : Reg) (v : Word) : (cpu.wrReg i v).r 0 = cpu.r 0 := by
  unfold Cpu.wrReg
  split
  case isTrue nonzero => exact Function.update_of_ne (Ne.symm nonzero) _ _
  case isFalse => rfl

theorem execRegimm_zero (pc insn : Word) : (cpu.execRegimm pc insn).r 0 = cpu.r 0 := by
  unfold Cpu.execRegimm
  dsimp only
  split
  · exact congrFun (branchIf_r _ _ _ _) 0
  · exact congrFun (branchIf_r _ _ _ _) 0
  · exact (congrFun (branchIf_r _ _ _ _) 0).trans (wrReg_zero _ _ _)
  · exact (congrFun (branchIf_r _ _ _ _) 0).trans (wrReg_zero _ _ _)
  · rfl

theorem execCop0_zero (insn : Word) : (cpu.execCop0 insn).r 0 = cpu.r 0 := by
  unfold Cpu.execCop0
  dsimp only
  split
  · exact wrReg_zero _ _ _
  · split <;> rfl
  · split <;> rfl
  · rfl

theorem advance_nextPc : cpu.advance.nextPc = cpu.taken.getD (cpu.nextPc + 4) := by
  unfold Cpu.advance Cpu.taken
  dsimp only
  split <;> rfl

theorem taken_of_clear (clear : cpu.branchTaken = false) : cpu.taken = none := by
  simp [Cpu.taken, clear]

end Pieces

section Execute

variable {cpu : Cpu δ} (pc insn : Word)

theorem execRegimm_taken (clear : cpu.branchTaken = false) (regimm : op insn = 0x01) :
    (cpu.execRegimm pc insn).taken = branchDest cpu.r pc insn := by
  have idle := taken_of_clear cpu clear
  unfold Cpu.execRegimm branchDest
  simp only [regimm]
  split <;> simp_all [branchIf_taken]

theorem execRegimm_nextPc : (cpu.execRegimm pc insn).nextPc = cpu.nextPc := by
  unfold Cpu.execRegimm
  dsimp only
  split <;> simp

theorem execCop0_taken : (cpu.execCop0 insn).taken = cpu.taken := by
  unfold Cpu.execCop0
  dsimp only
  split
  · exact wrReg_taken _ _ _
  · split <;> rfl
  · split <;> rfl
  · rfl

theorem execCop0_nextPc : (cpu.execCop0 insn).nextPc = cpu.nextPc := by
  unfold Cpu.execCop0
  dsimp only
  split
  · exact wrReg_nextPc _ _ _
  · split <;> rfl
  · split <;> rfl
  · rfl

variable [Mmio δ]

/-- The fallback continues behind SYSCALL whatever was to follow. -/
theorem syscall_fallback (noHandler : (cpu.load 0x80000080#32 .four).1 = 0) :
    (cpu.syscall pc).nextPc = pc + 4 ∧ (cpu.syscall pc).taken = none ∧
      (cpu.syscall pc).r = Function.update cpu.r 2 0 := by
  have fallback : ¬ (cpu.load 0x80000080#32 .four).1 ≠ 0 := not_not.mpr noHandler
  unfold Cpu.syscall
  dsimp only
  rw [if_neg fallback]
  refine ⟨rfl, rfl, ?_⟩
  split <;> rfl

theorem execSpecial_taken (clear : cpu.branchTaken = false) (special : op insn = 0x00)
    (plain : funct insn ≠ 0x0C) :
    (cpu.execSpecial pc insn).taken = branchDest cpu.r pc insn := by
  have idle := taken_of_clear cpu clear
  have dest : branchDest cpu.r pc insn =
      if funct insn = 0x08 ∨ funct insn = 0x09 then some (cpu.r (rs insn)) else none := by
    simp [branchDest, special]
  rw [dest]
  unfold Cpu.execSpecial
  dsimp only
  split
  case h_9 trap => exact absurd trap plain
  case h_29 => simp_all
  all_goals
    rename_i code
    rw [code]
    first
      | rfl
      | exact (wrReg_taken _ _ _).trans idle
      | exact idle
      | (split <;> first | exact idle | (split <;> exact idle))

theorem execSpecial_nextPc (plain : funct insn ≠ 0x0C) :
    (cpu.execSpecial pc insn).nextPc = cpu.nextPc := by
  unfold Cpu.execSpecial
  dsimp only
  split <;> first
    | contradiction
    | exact wrReg_nextPc _ _ _
    | rfl
    | (split <;> first | rfl | (split <;> rfl))

theorem isSyscall_iff : isSyscall insn = true ↔ op insn = 0x00 ∧ funct insn = 0x0C := by
  simp [isSyscall]

/-- Every instruction but SYSCALL takes the branches of the definition and
leaves the second program counter alone. -/
theorem execute_control (clear : cpu.branchTaken = false) (plain : isSyscall insn = false) :
    (cpu.execute pc insn).taken = branchDest cpu.r pc insn ∧
      (cpu.execute pc insn).nextPc = cpu.nextPc := by
  have idle := taken_of_clear cpu clear
  unfold Cpu.execute
  dsimp only
  split
  case h_1 special =>
    have notTrap : funct insn ≠ 0x0C := by
      intro trap
      rw [(isSyscall_iff insn).mpr ⟨special, trap⟩] at plain
      cases plain
    exact ⟨execSpecial_taken pc insn clear special notTrap,
      execSpecial_nextPc pc insn notTrap⟩
  case h_2 regimm =>
    exact ⟨execRegimm_taken pc insn clear regimm, execRegimm_nextPc pc insn⟩
  case h_30 =>
    have dest : branchDest cpu.r pc insn = none := by
      unfold branchDest
      split <;> first | contradiction | rfl
    exact ⟨idle.trans dest.symm, rfl⟩
  all_goals
    rename_i code
    constructor
  all_goals first
    | rfl
    | exact wrReg_nextPc _ _ _
    | exact branchIf_nextPc _ _ _ _
    | exact execCop0_nextPc _
    | (simp only [branchDest, code]; first
        | rfl
        | exact (wrReg_taken _ _ _).trans idle
        | exact (execCop0_taken _).trans idle
        | (rw [branchIf_taken, idle] <;> simp)
        | exact idle)

theorem syscall_zero : (cpu.syscall pc).r 0 = cpu.r 0 := by
  unfold Cpu.syscall
  dsimp only
  split
  · rfl
  · split <;> rfl

theorem execSpecial_zero : (cpu.execSpecial pc insn).r 0 = cpu.r 0 := by
  unfold Cpu.execSpecial
  dsimp only
  split <;> first
    | exact wrReg_zero _ _ _
    | exact syscall_zero pc
    | rfl
    | (split <;> first | rfl | (split <;> rfl))

theorem execute_zero : (cpu.execute pc insn).r 0 = cpu.r 0 := by
  unfold Cpu.execute
  dsimp only
  split <;> first
    | exact execSpecial_zero pc insn
    | exact execRegimm_zero _ _ _
    | exact execCop0_zero _ _
    | exact congrFun (branchIf_r _ _ _ _) 0
    | exact wrReg_zero _ _ _
    | rfl

theorem execute_link {i : Reg} (link : linkReg insn = some i) (nonzero : i ≠ 0) :
    (cpu.execute pc insn).r i = pc + 8 := by
  unfold linkReg at link
  split at link
  case h_1 special =>
    split at link
    case isFalse => cases link
    case isTrue jalr =>
      cases link
      simp only [Cpu.execute, special, Cpu.execSpecial, jalr, doBranch_r]
      exact wrReg_self _ nonzero _
  case h_2 regimm =>
    split at link
    case isFalse => cases link
    case isTrue linking =>
      cases link
      rcases linking with bltzal | bgezal
      · simp only [Cpu.execute, regimm, Cpu.execRegimm, bltzal, branchIf_r]
        exact wrReg_self _ nonzero _
      · simp only [Cpu.execute, regimm, Cpu.execRegimm, bgezal, branchIf_r]
        exact wrReg_self _ nonzero _
  case h_3 jal =>
    cases link
    simp only [Cpu.execute, jal, doBranch_r]
    exact wrReg_self _ nonzero _
  case h_4 => cases link

end Execute

section Runs

variable [Mmio δ]

/-- A step away from the hooks that delivers no interrupt and raises no
exception. -/
structure PlainStep (cpu : Cpu δ) : Prop where
  running : cpu.Running
  hookFree : cpu.HookFree
  quiet : (cpu.raiseInterrupts cpu.pc).interruptPending = false
  noHandler : isSyscall cpu.nextInsn = true → (cpu.fetched.load 0x80000080#32 .four).1 = 0

/-- The control flow of the definition for the instructions of a run. -/
def archTrace (cpu : Cpu δ) : Nat → Control
  | 0 => ⟨cpu.pc, none⟩
  | k + 1 => (archTrace cpu k).next (cpu.mipsRun k).r (cpu.mipsRun k).nextInsn

/-- The two program counters of the interpreter stand for a control state. -/
def Tracks (cpu : Cpu δ) (c : Control) : Prop :=
  cpu.pc = c.pc ∧ cpu.nextPc = c.slot.getD (c.pc + 4)

/-- The condition on a step: SYSCALL does not stand in the slot of a branch
taken to somewhere else. -/
def SyscallSequential (cpu : Cpu δ) : Prop :=
  isSyscall cpu.nextInsn = true → cpu.nextPc = cpu.pc + 4

theorem mipsStep_control {cpu : Cpu δ} (plain : PlainStep cpu)
    (sequential : SyscallSequential cpu) :
    cpu.mipsStep.pc = cpu.nextPc ∧
      cpu.mipsStep.nextPc = (branchDest cpu.r cpu.pc cpu.nextInsn).getD (cpu.nextPc + 4) := by
  have same := fetched_sameRegisters cpu
  rw [mipsStep_of_quiet plain.running plain.hookFree plain.quiet, advance_nextPc]
  change (cpu.fetched.execute cpu.pc cpu.nextInsn).nextPc = _ ∧ _
  cases trap : isSyscall cpu.nextInsn with
  | false =>
      obtain ⟨taken, next⟩ := execute_control cpu.pc cpu.nextInsn
        (show cpu.fetched.branchTaken = false from rfl) trap
      rw [taken, next, same.nextPc, same.r]
      exact ⟨rfl, rfl⟩
  | true =>
      obtain ⟨special, code⟩ := (isSyscall_iff cpu.nextInsn).mp trap
      obtain ⟨next, taken, -⟩ := syscall_fallback cpu.pc (plain.noHandler trap)
      have noBranch : branchDest cpu.r cpu.pc cpu.nextInsn = none := by
        simp [branchDest, special, code]
      rw [execute_syscall _ special code, next, taken, noBranch, sequential trap]
      exact ⟨rfl, rfl⟩

theorem Tracks.step {cpu : Cpu δ} {c : Control} (tracks : Tracks cpu c) (plain : PlainStep cpu)
    (sequential : SyscallSequential cpu)
    (noBranchInSlot : c.slot ≠ none → isBranch cpu.nextInsn = false) :
    Tracks cpu.mipsStep (c.next cpu.r cpu.nextInsn) := by
  obtain ⟨pc, nextPc⟩ := mipsStep_control plain sequential
  rw [tracks.2] at pc nextPc
  rw [tracks.1] at nextPc
  rcases c with ⟨address, slot⟩
  cases slot with
  | none => exact ⟨pc, nextPc⟩
  | some target =>
      have noBranch : branchDest cpu.r address cpu.nextInsn = none := by
        cases dest : branchDest cpu.r address cpu.nextInsn with
        | none => rfl
        | some other =>
            have branch := isBranch_of_dest dest
            rw [noBranchInSlot (by simp)] at branch
            cases branch
      rw [noBranch] at nextPc
      exact ⟨pc, nextPc⟩

/-- A run in the scope of the definition: sequential at the start, every step
plain, no branch right behind a branch. -/
structure PlainRun (cpu : Cpu δ) (steps : Nat) : Prop where
  start : cpu.nextPc = cpu.pc + 4
  zero : cpu.r 0 = 0
  plain : ∀ k < steps, PlainStep (cpu.mipsRun k)
  slots : ∀ k, k + 1 < steps → isBranch (cpu.mipsRun k).nextInsn = true →
    isBranch (cpu.mipsRun (k + 1)).nextInsn = false

/-- The run executes the addresses of the definition, reads register 0 as zero
and links as the definition says. -/
structure FollowsDefinition (cpu : Cpu δ) (steps : Nat) : Prop where
  addresses : ∀ k ≤ steps, (cpu.mipsRun k).pc = (archTrace cpu k).pc
  zero : ∀ k ≤ steps, (cpu.mipsRun k).r 0 = 0
  links : ∀ k < steps, ∀ i, linkReg (cpu.mipsRun k).nextInsn = some i → i ≠ 0 →
    (cpu.mipsRun (k + 1)).r i = (cpu.mipsRun k).pc + 8

theorem mipsRun_succ (cpu : Cpu δ) (k : Nat) : cpu.mipsRun (k + 1) = (cpu.mipsRun k).mipsStep :=
  Function.iterate_succ_apply' _ _ _

/-- A pending target comes from the branch executed just before. -/
theorem archTrace_slot {cpu : Cpu δ} {k : Nat} (pending : (archTrace cpu (k + 1)).slot ≠ none) :
    isBranch (cpu.mipsRun k).nextInsn = true := by
  simp only [archTrace, Control.next] at pending
  split at pending
  · exact absurd rfl pending
  · obtain ⟨target, dest⟩ := Option.ne_none_iff_exists'.mp pending
    exact isBranch_of_dest dest

theorem tracks_archTrace {cpu : Cpu δ} {steps : Nat} (run : PlainRun cpu steps)
    (sequential : ∀ k < steps, SyscallSequential (cpu.mipsRun k)) {k : Nat} (bound : k ≤ steps) :
    Tracks (cpu.mipsRun k) (archTrace cpu k) := by
  induction k with
  | zero => exact ⟨rfl, run.start⟩
  | succ k ih =>
      rw [mipsRun_succ]
      refine (ih (Nat.le_of_succ_le bound)).step (run.plain k bound) (sequential k bound) ?_
      intro pending
      cases k with
      | zero => exact absurd rfl pending
      | succ k => exact run.slots k bound (archTrace_slot pending)

theorem mipsStep_zero {cpu : Cpu δ} (plain : PlainStep cpu) : cpu.mipsStep.r 0 = cpu.r 0 := by
  rw [mipsStep_of_quiet plain.running plain.hookFree plain.quiet]
  exact (execute_zero _ _).trans (congrFun (fetched_sameRegisters cpu).r 0)

theorem mipsStep_link {cpu : Cpu δ} (plain : PlainStep cpu) {i : Reg}
    (link : linkReg cpu.nextInsn = some i) (nonzero : i ≠ 0) :
    cpu.mipsStep.r i = cpu.pc + 8 := by
  rw [mipsStep_of_quiet plain.running plain.hookFree plain.quiet]
  exact execute_link cpu.pc cpu.nextInsn link nonzero

/-- Every plain run follows the definition as long as no fallback SYSCALL is
executed in the slot of a taken branch. -/
theorem followsDefinition_of_run {cpu : Cpu δ} {steps : Nat} (run : PlainRun cpu steps)
    (sequential : ∀ k < steps, SyscallSequential (cpu.mipsRun k)) :
    FollowsDefinition cpu steps where
  addresses k bound := (tracks_archTrace run sequential bound).1
  zero k bound := by
    induction k with
    | zero => exact run.zero
    | succ k ih =>
        rw [mipsRun_succ, mipsStep_zero (run.plain k bound)]
        exact ih (Nat.le_of_succ_le bound)
  links k bound i link nonzero := by
    rw [mipsRun_succ]
    exact mipsStep_link (run.plain k bound) link nonzero

end Runs

section Slots

/-- `jal 0x80002000` at `0x80001000`, the given instruction in its slot and a
`jr $ra` at the target. -/
def slotMachine (slot : Word) : Cpu Unit :=
  bareMachine (storeWords (storeWords (fun _ => 0) 0x1000 [0x0C000800#32, slot]) 0x2000
    [0x03E00008#32, 0x00000000#32])

theorem followsDefinition_of_run_nop : FollowsDefinition (slotMachine 0x00000000#32) 4 := by
  refine followsDefinition_of_run (PlainRun.mk rfl rfl ?_ ?_) ?_
  · intro k bound
    constructor <;> interval_cases k <;> decide +kernel
  · intro k bound
    have small : k < 3 := by omega
    interval_cases k <;> decide +kernel
  · intro k bound trap
    interval_cases k <;> (revert trap; decide +kernel)

/-- With SYSCALL in the slot the jump is lost: control falls through to the
instruction behind the slot. -/
theorem syscall_slot_loses_jump :
    PlainRun (slotMachine 0x0000000C#32) 2 ∧ ¬ FollowsDefinition (slotMachine 0x0000000C#32) 2 := by
  constructor
  · constructor
    case plain =>
      intro k bound
      constructor <;> interval_cases k <;> decide +kernel
    case slots =>
      intro k bound
      have first : k = 0 := by omega
      subst first
      decide +kernel
    all_goals decide +kernel
  · intro follows
    have target := follows.addresses 2 (Nat.le_refl 2)
    revert target
    decide +kernel

end Slots

end Ncd15.Emulator
