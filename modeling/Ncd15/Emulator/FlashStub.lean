import Ncd15.Emulator.FlashLoad
import Ncd15.Emulator.IcacheCoherence
import Ncd15.Emulator.DelaySlots

/-!
# The entry stub of the flash window

The loader patches a jump to the linked entry over the first words of an ECOFF image.  A
machine that starts at the window reaches the entry through it, with `$t0` the only
register used, when the word behind the jump is a nop.  The first fetch from the window
may re-blit the image's sections.
-/

namespace Ncd15.Emulator

open Ncd15.Library

section Words

/-- The address of the flash window. -/
def flashWindow : Word := 0xBF800000#32

/-- The words the loader patches over the image, with the offset behind them. -/
def stubLength (entry : Word) : Nat :=
  if entry.extractLsb' 0 16 ≠ 0#16 then 12 else 8

variable (high low : BitVec 16)

theorem toNat_stubWord : (high ++ low : Word).toNat = high.toNat * 2 ^ 16 + low.toNat :=
  toNat_append_eq high low

theorem op_append : op (high ++ low : Word) = high.toNat / 2 ^ 10 := by
  have bound := high.isLt
  have bound' := low.isLt
  rw [op, BitVec.extractLsb'_toNat, toNat_stubWord, Nat.shiftRight_eq_div_pow]
  omega

theorem rs_append : (rs (high ++ low : Word)).toNat = high.toNat / 2 ^ 5 % 2 ^ 5 := by
  have bound' := low.isLt
  rw [rs, BitVec.extractLsb'_toNat, toNat_stubWord, Nat.shiftRight_eq_div_pow]
  omega

theorem rt_append : (rt (high ++ low : Word)).toNat = high.toNat % 2 ^ 5 := by
  have bound' := low.isLt
  rw [rt, BitVec.extractLsb'_toNat, toNat_stubWord, Nat.shiftRight_eq_div_pow]
  omega

theorem imm_append : imm (high ++ low : Word) = low.setWidth 32 := by
  have bound' := low.isLt
  apply BitVec.eq_of_toNat_eq
  rw [imm, BitVec.toNat_and, toNat_stubWord, BitVec.toNat_setWidth]
  rw [show (0xFFFF#32).toNat = 2 ^ 16 - 1 from rfl, Nat.and_two_pow_sub_one_eq_mod]
  omega

/-- The two halves of the entry come together in the register. -/
theorem entry_halves (entry : Word) :
    ((entry.extractLsb' 16 16).setWidth 32 <<< 16) ||| (entry.extractLsb' 0 16).setWidth 32 =
      entry := by
  apply BitVec.eq_of_getLsbD_eq
  intro i bound
  simp only [BitVec.getLsbD_or, BitVec.getLsbD_shiftLeft, BitVec.getLsbD_setWidth,
    BitVec.getLsbD_extractLsb']
  interval_cases i <;> simp

end Words

section Image

theorem ldBe_before (bytes : Nat → BitVec 8) {off off' : Nat} (value : Word)
    (before : off + 4 ≤ off') :
    ldBe (stBe bytes off' value .four) off .four = ldBe bytes off .four := by
  refine ldBe_congr fun i inside => stBe_outside _ _ (.inl ?_)
  change i < 4 at inside
  omega

variable (flash : Nat → BitVec 8) (entry : Word)

theorem redirectStub_first :
    ldBe (redirectStub flash entry) 0 .four = 0x3C08#16 ++ entry.extractLsb' 16 16 := by
  unfold redirectStub
  dsimp only
  split
  · rw [ldBe_before _ _ (by decide), ldBe_before _ _ (by decide)]
    exact ldBe_stBe _ _ _ _
  · rw [ldBe_before _ _ (by decide)]
    exact ldBe_stBe _ _ _ _

theorem redirectStub_long (long : entry.extractLsb' 0 16 ≠ 0#16) :
    ldBe (redirectStub flash entry) 4 .four = 0x3508#16 ++ entry.extractLsb' 0 16 ∧
      ldBe (redirectStub flash entry) 8 .four = 0x01000008#32 := by
  have stub : redirectStub flash entry = _ := if_pos long
  rw [stub]
  refine ⟨?_, ldBe_stBe _ _ _ _⟩
  rw [ldBe_before _ _ (by decide)]
  exact ldBe_stBe _ _ _ _

theorem redirectStub_short (short : entry.extractLsb' 0 16 = 0#16) :
    ldBe (redirectStub flash entry) 4 .four = 0x01000008#32 := by
  have stub : redirectStub flash entry = _ := if_neg (not_not.mpr short)
  rw [stub]
  exact ldBe_stBe _ _ _ _

end Image

section Memory

variable {δ : Type} {b c d : Bus δ}

/-- Two buses with the same memory, devices and flash card. -/
structure SameStore (b c : Bus δ) : Prop where
  rom : c.rom = b.rom
  dram : c.dram = b.dram
  shadow : c.shadow = b.shadow
  vram : c.vram = b.vram
  devices : c.devices = b.devices
  hasFlash : c.hasFlash = b.hasFlash
  flash : c.flash = b.flash
  flashSize : c.flashSize = b.flashSize
  ecoffBytes : c.ecoffBytes = b.ecoffBytes
  ecoffPreloaded : c.ecoffPreloaded = b.ecoffPreloaded

theorem SameStore.refl (b : Bus δ) : SameStore b b :=
  ⟨rfl, rfl, rfl, rfl, rfl, rfl, rfl, rfl, rfl, rfl⟩

theorem SameStore.trans (left : SameStore b c) (right : SameStore c d) : SameStore b d :=
  ⟨right.rom.trans left.rom, right.dram.trans left.dram, right.shadow.trans left.shadow,
    right.vram.trans left.vram, right.devices.trans left.devices,
    right.hasFlash.trans left.hasFlash, right.flash.trans left.flash,
    right.flashSize.trans left.flashSize, right.ecoffBytes.trans left.ecoffBytes,
    right.ecoffPreloaded.trans left.ecoffPreloaded⟩

/-- The bus after the first read of the flash window. -/
def Bus.settled (b : Bus δ) : Bus δ := if b.needsReblit then b.reblit else b

theorem settled_of_preloaded (quiet : b.needsReblit = false) : b.settled = b := by
  rw [Bus.settled, quiet]
  rfl

theorem needsReblit_settled (b : Bus δ) : b.settled.needsReblit = false := by
  unfold Bus.settled
  split
  case isTrue => rfl
  case isFalse never => exact Bool.eq_false_iff.mpr never

theorem SameStore.settled (same : SameStore b c) : SameStore b.settled c.settled := by
  have sameTest : c.needsReblit = b.needsReblit := by
    rw [Bus.needsReblit, Bus.needsReblit, same.ecoffBytes, same.ecoffPreloaded]
  have sameBlit : blitSection c = blitSection b := by
    funext shadow index
    rw [blitSection_eq, blitSection_eq, same.ecoffBytes]
  have sameFile : c.ecoff = b.ecoff := by
    funext offset
    rw [Bus.ecoff, Bus.ecoff, same.ecoffBytes]
  unfold Bus.settled
  rw [sameTest]
  split
  case isTrue =>
    have sections : c.reblit.shadow = b.reblit.shadow := by
      simp only [Bus.reblit, sameBlit, sameFile, same.shadow]
    exact ⟨same.rom, congrArg (storeWords · 0x80 xncdHandler) same.dram, sections, same.vram,
      same.devices, same.hasFlash, same.flash, same.flashSize, same.ecoffBytes, rfl⟩
  case isFalse => exact same

end Memory

section Steps

variable {δ : Type} [Mmio δ] {cpu : Cpu δ}

/-- The address of a word of the window. -/
def windowWord (j : Nat) : Word := flashWindow + BitVec.ofNat 32 (4 * j)

theorem busRead_window {b : Bus δ} (card : b.hasFlash = true) (size : b.flashSize = flashAlloc)
    {j : Nat} (small : j < 4) :
    (busRead b (windowWord j) .four).1 = ldBe b.flash (4 * j) .four ∧
      SameStore b.settled (busRead b (windowWord j) .four).2.1 := by
  have place : mipsVaToPa (windowWord j) = 0x1F800000#32 + BitVec.ofNat 32 (4 * j) := by
    interval_cases j <;> decide
  have offset : (mipsVaToPa (windowWord j) - 0x1F800000#32).toNat = 4 * j := by
    rw [place]
    interval_cases j <;> decide
  have rom : ¬ InRom (mipsVaToPa (windowWord j)) := by
    rw [place]
    interval_cases j <;> decide
  have shadow : ¬ InShadow (mipsVaToPa (windowWord j)) := by
    rw [place]
    interval_cases j <;> decide
  have flash : b.InFlash (mipsVaToPa (windowWord j)) := by
    rw [place]
    refine ⟨card, ?_, ?_⟩
    · interval_cases j <;> decide
    · rw [size]
      interval_cases j <;> decide
  have read : busRead b (windowWord j) .four = _ :=
    (if_neg rom).trans ((if_neg shadow).trans (if_pos flash))
  rw [read, offset]
  unfold Bus.settled
  split
  · exact ⟨rfl, SameStore.refl _⟩
  · exact ⟨rfl, SameStore.refl _⟩

theorem fetched_window {j : Nat} (small : j < 4) (here : cpu.pc = windowWord j)
    (card : cpu.bus.hasFlash = true) (size : cpu.bus.flashSize = flashAlloc) :
    cpu.nextInsn = ldBe cpu.bus.flash (4 * j) .four ∧
      SameStore cpu.bus.settled cpu.fetched.bus := by
  have uncachedFetch : cpu.prepared.fetch cpu.pc = cpu.prepared.load (windowWord j) .four := by
    rw [here]
    refine if_pos ?_
    interval_cases j <;> decide
  have prepared : SameStore cpu.bus cpu.prepared.bus :=
    ⟨rfl, rfl, rfl, rfl, rfl, rfl, rfl, rfl, rfl, rfl⟩
  obtain ⟨value, store⟩ := busRead_window (b := cpu.prepared.bus) card size small
  constructor
  · rw [Cpu.nextInsn, uncachedFetch]
    exact value
  · have bus : cpu.fetched.bus = (cpu.prepared.load (windowWord j) .four).2.bus :=
      congrArg (fun result => result.2.bus) uncachedFetch
    rw [bus]
    exact prepared.settled.trans store

/-- One step in the window: the word there executes, and no hook gets in the way. -/
theorem mipsStep_window {j : Nat} (small : j < 4) (here : cpu.pc = windowWord j)
    (running : cpu.Running) (quiet : (cpu.raiseInterrupts cpu.pc).interruptPending = false)
    (card : cpu.bus.hasFlash = true) (size : cpu.bus.flashSize = flashAlloc) :
    cpu.mipsStep = (cpu.fetched.execute cpu.pc (ldBe cpu.bus.flash (4 * j) .four)).advance := by
  have hookFree : cpu.HookFree := by
    rw [Cpu.HookFree, Cpu.bootRedirect, here]
    interval_cases j <;> simp [windowWord, flashWindow]
  rw [← (fetched_window small here card size).1]
  exact mipsStep_of_quiet running hookFree quiet

/-- A machine at a word of the window of a card with this contents, about to go on to
`next`, with no interrupt to deliver. -/
structure Cpu.AtWindow (cpu : Cpu δ) (flash : Nat → BitVec 8) (j : Nat) (next : Word) : Prop where
  small : j < 4
  running : cpu.Running
  here : cpu.pc = windowWord j
  next : cpu.nextPc = next
  quiet : (cpu.raiseInterrupts cpu.pc).interruptPending = false
  card : cpu.bus.hasFlash = true
  size : cpu.bus.flashSize = flashAlloc
  flash : cpu.bus.flash = flash

/-- Everything but the program counters and `$t0` is as before, once the sections are in
place. -/
structure Cpu.Frame (cpu after : Cpu δ) : Prop where
  running : after.Running
  registers : ∀ i, i ≠ 8 → after.r i = cpu.r i
  hi : after.hi = cpu.hi
  lo : after.lo = cpu.lo
  store : SameStore cpu.bus.settled after.bus

variable {flash : Nat → BitVec 8} {j : Nat} {next : Word} {v : Word → Word}

omit [Mmio δ] in
theorem Cpu.Frame.trans {cpu between after : Cpu δ} (first : cpu.Frame between)
    (second : between.Frame after) : cpu.Frame after where
  running := second.running
  registers i other := (second.registers i other).trans (first.registers i other)
  hi := second.hi.trans first.hi
  lo := second.lo.trans first.lo
  store := by
    have settled := first.store.settled
    rw [settled_of_preloaded (needsReblit_settled cpu.bus)] at settled
    exact settled.trans second.store

/-- One step in the window, from what its word does to the machine that has fetched it. -/
theorem window_step (at_ : cpu.AtWindow flash j next) :
    cpu.mipsStep = (cpu.fetched.execute cpu.pc (ldBe flash (4 * j) .four)).advance ∧
      cpu.Frame cpu.fetched ∧ cpu.fetched.nextPc = next ∧ cpu.fetched.r 8 = cpu.r 8 ∧
      cpu.fetched.branchTaken = false := by
  have same := fetched_sameRegisters cpu
  have step := mipsStep_window at_.small at_.here at_.running at_.quiet at_.card at_.size
  rw [at_.flash] at step
  refine ⟨step, ?_, same.nextPc.trans at_.next, congrFun same.r 8, rfl⟩
  exact
    { running := ⟨same.halted.trans at_.running.1, same.hostFault.trans at_.running.2⟩
      registers := fun i _ => congrFun same.r i
      hi := same.hi
      lo := same.lo
      store := (fetched_window at_.small at_.here at_.card at_.size).2 }

/-- A word that writes `$t0`. -/
theorem window_write (at_ : cpu.AtWindow flash j next)
    (run : ∀ c : Cpu δ, c.execute cpu.pc (ldBe flash (4 * j) .four) = c.wrReg 8 (v (c.r 8))) :
    cpu.Frame cpu.mipsStep ∧ cpu.mipsStep.pc = next ∧ cpu.mipsStep.nextPc = next + 4 ∧
      cpu.mipsStep.r 8 = v (cpu.r 8) := by
  obtain ⟨step, frame, nextPc, reg, straight⟩ := window_step at_
  rw [step, run, reg]
  have written : cpu.fetched.wrReg 8 (v (cpu.r 8)) =
      { cpu.fetched with r := Function.update cpu.fetched.r 8 (v (cpu.r 8)) } :=
    if_pos (by decide)
  rw [written, Cpu.advance]
  refine ⟨⟨frame.running, ?_, frame.hi, frame.lo, frame.store⟩, nextPc, ?_, ?_⟩
  · intro i other
    exact (Function.update_of_ne other _ _).trans (frame.registers i other)
  · dsimp only
    rw [straight, nextPc]
    rfl
  · dsimp only
    rw [Function.update_self]

/-- `jr $t0`. -/
theorem window_jump (at_ : cpu.AtWindow flash j next)
    (jump : ldBe flash (4 * j) .four = 0x01000008#32) :
    cpu.Frame cpu.mipsStep ∧ cpu.mipsStep.pc = next ∧ cpu.mipsStep.nextPc = cpu.r 8 ∧
      cpu.mipsStep.r 8 = cpu.r 8 := by
  obtain ⟨step, frame, nextPc, reg, straight⟩ := window_step at_
  rw [step, jump, execute_jr _ (by decide) (by decide)]
  exact ⟨⟨frame.running, frame.registers, frame.hi, frame.lo, frame.store⟩, nextPc, reg, reg⟩

/-- A nop. -/
theorem window_nop (at_ : cpu.AtWindow flash j next) (nop : ldBe flash (4 * j) .four = 0#32) :
    cpu.Frame cpu.mipsStep ∧ cpu.mipsStep.pc = next ∧ cpu.mipsStep.nextPc = next + 4 ∧
      cpu.mipsStep.r 8 = cpu.r 8 := by
  obtain ⟨step, frame, nextPc, reg, straight⟩ := window_step at_
  have idle : cpu.fetched.execute cpu.pc 0#32 = cpu.fetched := by
    simp [Cpu.execute, Cpu.execSpecial, op, funct, rd, Cpu.wrReg]
  rw [step, nop, idle, Cpu.advance]
  refine ⟨⟨frame.running, frame.registers, frame.hi, frame.lo, frame.store⟩, nextPc, ?_, reg⟩
  dsimp only
  rw [straight, nextPc]
  rfl

end Steps

section Stub

variable {δ : Type} {cpu : Cpu δ} {b loaded : Bus δ} {file : List (BitVec 8)}

/-- The steps of the stub, the delay slot of its jump included. -/
def stubSteps (entry : Word) : Nat := stubLength entry / 4 + 1

/-- The card of the machine is the one the loader made. -/
structure SameCard (loaded b : Bus δ) : Prop where
  hasFlash : b.hasFlash = loaded.hasFlash
  flash : b.flash = loaded.flash
  flashSize : b.flashSize = loaded.flashSize
  ecoffBytes : b.ecoffBytes = loaded.ecoffBytes

/-- The machine has gone through the stub: it is at the entry, and nothing else but
`$t0` has changed once the sections are in place. -/
structure Cpu.Entered (cpu after : Cpu δ) (entry : Word) : Prop where
  pc : after.pc = entry
  nextPc : after.nextPc = entry + 4
  frame : cpu.Frame after

theorem loadFlash_card (ecoff : isEcoff file = true) (loads : loadFlash b file = some loaded) :
    loaded.hasFlash = true ∧ loaded.flashSize = flashAlloc ∧
      ∃ flash, loaded.flash = redirectStub flash loaded.flashEntry := by
  rw [loadFlash, if_pos ecoff] at loads
  obtain ⟨shadow, -, rest⟩ := Option.bind_eq_some_iff.mp loads
  obtain ⟨entry, -, made⟩ := Option.bind_eq_some_iff.mp rest
  cases made
  exact ⟨rfl, rfl, _, rfl⟩

variable [Mmio δ]

theorem execute_lui (c : Cpu δ) (pc : Word) (high : BitVec 16) :
    c.execute pc (0x3C08#16 ++ high) = c.wrReg 8 (high.setWidth 32 <<< 16) := by
  have code : op (0x3C08#16 ++ high : Word) = 0x0F := op_append _ _
  have target : rt (0x3C08#16 ++ high : Word) = 8 := BitVec.eq_of_toNat_eq (rt_append _ _)
  simp only [Cpu.execute, code, target, imm_append]

theorem execute_ori (c : Cpu δ) (pc : Word) (low : BitVec 16) :
    c.execute pc (0x3508#16 ++ low) = c.wrReg 8 (c.r 8 ||| low.setWidth 32) := by
  have code : op (0x3508#16 ++ low : Word) = 0x0D := op_append _ _
  have source : rs (0x3508#16 ++ low : Word) = 8 := BitVec.eq_of_toNat_eq (rs_append _ _)
  have target : rt (0x3508#16 ++ low : Word) = 8 := BitVec.eq_of_toNat_eq (rt_append _ _)
  simp only [Cpu.execute, code, source, target, imm_append]

/-- The machine further on in the window. -/
theorem Cpu.Frame.atWindow {after : Cpu δ} {flash : Nat → BitVec 8} {j : Nat}
    {next next' : Word} (frame : cpu.Frame after) (at_ : cpu.AtWindow flash j next) (j' : Nat)
    (small : j' < 4)
    (here : after.pc = windowWord j') (goesOn : after.nextPc = next')
    (quiet : (after.raiseInterrupts after.pc).interruptPending = false) :
    after.AtWindow flash j' next' := by
  have card : cpu.bus.settled.hasFlash = cpu.bus.hasFlash ∧
      cpu.bus.settled.flashSize = cpu.bus.flashSize ∧
      cpu.bus.settled.flash = cpu.bus.flash := by
    unfold Bus.settled
    split <;> exact ⟨rfl, rfl, rfl⟩
  exact
    { small, running := frame.running, here, next := goesOn, quiet
      card := (frame.store.hasFlash.trans card.1).trans at_.card
      size := (frame.store.flashSize.trans card.2.1).trans at_.size
      flash := (frame.store.flash.trans card.2.2).trans at_.flash }

/-- The stub reaches the entry when the word behind its jump is a nop and no interrupt is
delivered on the way. -/
theorem stub_reaches_entry (ecoff : isEcoff file = true) (loads : loadFlash b file = some loaded)
    (nop : ldBe loaded.flash (stubLength loaded.flashEntry) .four = 0#32)
    (card : SameCard loaded cpu.bus) (running : cpu.Running) (here : cpu.pc = flashWindow)
    (next : cpu.nextPc = flashWindow + 4)
    (quiet : ∀ k < stubSteps loaded.flashEntry,
      ((cpu.mipsRun k).raiseInterrupts (cpu.mipsRun k).pc).interruptPending = false) :
    cpu.Entered (cpu.mipsRun (stubSteps loaded.flashEntry)) loaded.flashEntry := by
  obtain ⟨hasFlash, flashSize, image, flash⟩ := loadFlash_card ecoff loads
  have calm (k : Nat) (before : k < stubSteps loaded.flashEntry) {c : Cpu δ}
      (state : cpu.mipsRun k = c) : (c.raiseInterrupts c.pc).interruptPending = false := by
    rw [← state]
    exact quiet k before
  have start : cpu.AtWindow loaded.flash 0 (windowWord 1) :=
    { small := by decide, running, here, next, quiet := calm 0 (Nat.succ_pos _) rfl
      card := card.hasFlash.trans hasFlash, size := card.flashSize.trans flashSize
      flash := card.flash }
  -- `lui $t0`
  obtain ⟨frame1, pc1, next1, reg1⟩ := window_write start (v := fun _ => _) (fun c => by
    rw [flash, redirectStub_first]
    exact execute_lui c _ _)
  by_cases long : loaded.flashEntry.extractLsb' 0 16 ≠ 0#16
  · have length : stubLength loaded.flashEntry = 12 := if_pos long
    have steps : stubSteps loaded.flashEntry = 4 := by rw [stubSteps, length]
    rw [steps] at calm ⊢
    rw [length] at nop
    obtain ⟨second, third⟩ := redirectStub_long image loaded.flashEntry long
    rw [← flash] at second third
    have at1 := frame1.atWindow start 1 (by decide) pc1 next1 (calm 1 (by decide) rfl)
    obtain ⟨frame2, pc2, next2, reg2⟩ := window_write at1 (v := (· ||| _)) (fun c => by
      rw [second]
      exact execute_ori c _ _)
    have so2 := frame1.trans frame2
    have at2 := so2.atWindow start 2 (by decide) pc2 next2 (calm 2 (by decide) rfl)
    obtain ⟨frame3, pc3, next3, -⟩ := window_jump at2 third
    rw [reg2, reg1, entry_halves] at next3
    have so3 := so2.trans frame3
    have at3 := so3.atWindow start 3 (by decide) pc3 next3 (calm 3 (by decide) rfl)
    obtain ⟨frame4, pc4, next4, -⟩ := window_nop at3 nop
    exact ⟨pc4, next4, so3.trans frame4⟩
  · have short : loaded.flashEntry.extractLsb' 0 16 = 0#16 := not_not.mp long
    have length : stubLength loaded.flashEntry = 8 := if_neg long
    have steps : stubSteps loaded.flashEntry = 3 := by rw [stubSteps, length]
    rw [steps] at calm ⊢
    rw [length] at nop
    have second := redirectStub_short image loaded.flashEntry short
    rw [← flash] at second
    have at1 := frame1.atWindow start 1 (by decide) pc1 next1 (calm 1 (by decide) rfl)
    obtain ⟨frame2, pc2, next2, -⟩ := window_jump at1 second
    have whole := entry_halves loaded.flashEntry
    rw [short, BitVec.setWidth_zero, BitVec.or_zero] at whole
    rw [reg1, whole] at next2
    have so2 := frame1.trans frame2
    have at2 := so2.atWindow start 2 (by decide) pc2 next2 (calm 2 (by decide) rfl)
    obtain ⟨frame3, pc3, next3, -⟩ := window_nop at2 nop
    exact ⟨pc3, next3, so2.trans frame3⟩

/-- The machine goes through the stub and nothing at all but `$t0` has changed. -/
def Cpu.EntersUnchanged (cpu : Cpu δ) (entry : Word) : Prop :=
  ∃ steps, (cpu.mipsRun steps).pc = entry ∧
    (∀ i, i ≠ 8 → (cpu.mipsRun steps).r i = cpu.r i) ∧
    (cpu.mipsRun steps).bus.dram = cpu.bus.dram ∧
    (cpu.mipsRun steps).bus.shadow = cpu.bus.shadow

end Stub

section Card

/-- An ECOFF file without sections, its entry at `0xA0010000`, and sixteen bytes of
payload. -/
def emptyImage : List (BitVec 8) :=
  [0x01#8, 0x60#8] ++ List.replicate 0x22 0x00#8 ++ [0xA0#8, 0x01#8, 0x00#8, 0x00#8] ++
    List.replicate 0x128 0x00#8

/-- A machine at the window of that card, with a `break` at the entry. -/
def cardMachine : Cpu Unit :=
  let bare := bareMachine (storeWords (fun _ => 0) 0x10000 [0x0000000D#32])
  { bare with
    pc := flashWindow
    nextPc := flashWindow + 4
    bus := bare.bus.withImage emptyImage (fun _ => 0) }

theorem stub_reaches_entry_empty : cardMachine.Entered (cardMachine.mipsRun 3) 0xA0010000#32 := by
  have loads : loadFlash (bareMachine fun _ => 0).bus emptyImage =
      some ((bareMachine fun _ => 0).bus.withImage emptyImage (fun _ => 0)) :=
    loadFlash_ecoff _ (by decide +kernel) rfl
  have entered : cardMachine.Entered _ _ :=
    stub_reaches_entry (by decide +kernel) loads (by decide +kernel)
    ⟨rfl, rfl, rfl, rfl⟩ ⟨rfl, rfl⟩ rfl rfl (by decide +kernel)
  exact entered

/-- The first fetch from the window puts the synthetic handler into DRAM. -/
theorem window_fetch_changes_dram : ¬ cardMachine.EntersUnchanged 0xA0010000#32 := by
  rintro ⟨steps, here, -, dram, -⟩
  have first : (cardMachine.mipsRun 4).halted = true := by decide +kernel
  have stopped : ∀ n, cardMachine.mipsRun (4 + n) = cardMachine.mipsRun 4 := by
    intro n
    induction n with
    | zero => rfl
    | succ n same =>
        rw [← Nat.add_assoc, mipsRun_succ, same, Cpu.mipsStep, if_pos (.inl first)]
  have handler : ∀ k < 5, 0 < k → (cardMachine.mipsRun k).bus.dram 0x80 = 0x40#8 := by
    decide +kernel
  have before : cardMachine.bus.dram 0x80 = 0x00#8 := by decide +kernel
  have byte : (cardMachine.mipsRun steps).bus.dram 0x80 = 0x00#8 := by rw [dram, before]
  obtain rfl | early | late : steps = 0 ∨ (0 < steps ∧ steps < 4) ∨ 4 ≤ steps := by omega
  · exact absurd here (by decide)
  · rw [handler steps (by omega) early.1] at byte
    exact absurd byte (by decide)
  · obtain ⟨n, rfl⟩ := Nat.exists_eq_add_of_le late
    rw [stopped n, handler 4 (by decide) (by decide)] at byte
    exact absurd byte (by decide)

end Card

end Ncd15.Emulator
