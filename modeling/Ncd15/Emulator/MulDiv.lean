import Ncd15.Emulator.Step
import Mathlib.Algebra.Order.Ring.Abs

/-!
# Multiplication and division

The four instructions that write HI and LO, against the products, quotients and
remainders of the architecture.  One pair of operands stops the host: the most
negative dividend and the divisor -1.
-/

namespace Ncd15.Emulator

/-- The instructions MULT, MULTU, DIV and DIVU. -/
inductive MulDiv
  | mult
  | multu
  | div
  | divu
  deriving DecidableEq, Repr

namespace MulDiv

/-- The function code. -/
def code : MulDiv → Nat
  | mult => 0x18
  | multu => 0x19
  | div => 0x1A
  | divu => 0x1B

/-- HI and LO after a division with this quotient and remainder. -/
structure Divides (s t hi lo q r : Word) : Prop where
  quotient : lo = q
  remainder : hi = r
  dividend : lo * t + hi = s

/-- What the architecture says of HI and LO after the instruction. -/
def Result (s t hi lo : Word) : MulDiv → Prop
  | mult => (hi ++ lo).toInt = s.toInt * t.toInt
  | multu => (hi ++ lo).toNat = s.toNat * t.toNat
  | div => t ≠ 0 → Divides s t hi lo (BitVec.ofInt 32 (s.toInt.tdiv t.toInt))
      (BitVec.ofInt 32 (s.toInt.tmod t.toInt))
  | divu => t ≠ 0 → Divides s t hi lo (BitVec.ofNat 32 (s.toNat / t.toNat))
      (BitVec.ofNat 32 (s.toNat % t.toNat))

/-- The operands on which the host's own division traps. -/
def Traps (s t : Word) (kind : MulDiv) : Prop :=
  kind = div ∧ s = 0x80000000#32 ∧ t = 0xFFFFFFFF#32

instance (s t : Word) (kind : MulDiv) : Decidable (kind.Traps s t) := instDecidableAnd

variable {s t : Word}

theorem not_traps {kind : MulDiv} (other : kind ≠ div) : ¬ kind.Traps s t :=
  fun traps => other traps.1

/-- The two halves of a 64-bit word. -/
theorem halves (p : BitVec 64) : (p >>> 32).setWidth 32 ++ p.setWidth 32 = p := by
  have bound := p.isLt
  apply BitVec.eq_of_toNat_eq
  rw [BitVec.toNat_append, BitVec.toNat_setWidth, BitVec.toNat_setWidth, BitVec.toNat_ushiftRight,
    Nat.shiftRight_eq_div_pow, ← Nat.shiftLeft_add_eq_or_of_lt (Nat.mod_lt _ (by decide)),
    Nat.shiftLeft_eq]
  omega

theorem toInt_bounds (s : Word) : -2 ^ 31 ≤ s.toInt ∧ s.toInt < 2 ^ 31 := by
  have lower := s.le_toInt
  have upper := s.toInt_lt
  exact ⟨lower, upper⟩

theorem mult_result (s t : Word) :
    (s.signExtend 64 * t.signExtend 64).toInt = s.toInt * t.toInt := by
  have first := toInt_bounds s
  have second := toInt_bounds t
  rw [BitVec.toInt_mul, BitVec.toInt_signExtend_of_le (by decide),
    BitVec.toInt_signExtend_of_le (by decide)]
  have size : |s.toInt * t.toInt| ≤ 2 ^ 31 * 2 ^ 31 := by
    rw [abs_mul]
    refine mul_le_mul ?_ ?_ (abs_nonneg _) (by decide) <;> rw [abs_le] <;> omega
  rw [abs_le] at size
  exact Int.bmod_eq_of_le (by omega) (by omega)

theorem multu_result (s t : Word) : (s.setWidth 64 * t.setWidth 64).toNat = s.toNat * t.toNat := by
  have first := s.isLt
  have second := t.isLt
  have size : s.toNat * t.toNat < 2 ^ 32 * 2 ^ 32 := Nat.mul_lt_mul'' first second
  rw [BitVec.toNat_mul, BitVec.toNat_setWidth_of_le (by decide),
    BitVec.toNat_setWidth_of_le (by decide)]
  exact Nat.mod_eq_of_lt size

theorem divu_result (s t : Word) :
    Divides s t (s % t) (s / t) (BitVec.ofNat 32 (s.toNat / t.toNat))
      (BitVec.ofNat 32 (s.toNat % t.toNat)) := by
  have quotient : s / t = BitVec.ofNat 32 (s.toNat / t.toNat) := BitVec.udiv_def
  have remainder : s % t = BitVec.ofNat 32 (s.toNat % t.toNat) := BitVec.umod_def
  refine ⟨quotient, remainder, ?_⟩
  calc s / t * t + s % t
      = BitVec.ofNat 32 (s.toNat / t.toNat) * BitVec.ofNat 32 t.toNat +
          BitVec.ofNat 32 (s.toNat % t.toNat) := by
        rw [quotient, remainder, BitVec.ofNat_toNat, BitVec.setWidth_eq]
    _ = BitVec.ofNat 32 (s.toNat / t.toNat * t.toNat + s.toNat % t.toNat) := by
        rw [BitVec.ofNat_add, BitVec.ofNat_mul]
    _ = s := by rw [Nat.div_add_mod', BitVec.ofNat_toNat, BitVec.setWidth_eq]

/-- The only quotient that does not fit comes from the operands that trap. -/
theorem div_result (fits : ¬ (s = 0x80000000#32 ∧ t = 0xFFFFFFFF#32)) :
    Divides s t (s.srem t) (s.sdiv t) (BitVec.ofInt 32 (s.toInt.tdiv t.toInt))
      (BitVec.ofInt 32 (s.toInt.tmod t.toInt)) := by
  have exact : (s.sdiv t).toInt = s.toInt.tdiv t.toInt := by
    refine BitVec.toInt_sdiv_of_ne_or_ne s t ?_
    by_contra same
    exact fits (not_or.mp same |>.imp not_not.mp not_not.mp)
  have quotient : s.sdiv t = BitVec.ofInt 32 (s.toInt.tdiv t.toInt) := by
    rw [← exact, BitVec.ofInt_toInt]
  have remainder : s.srem t = BitVec.ofInt 32 (s.toInt.tmod t.toInt) := by
    rw [← BitVec.toInt_srem, BitVec.ofInt_toInt]
  refine ⟨quotient, remainder, ?_⟩
  calc s.sdiv t * t + s.srem t
      = BitVec.ofInt 32 (s.toInt.tdiv t.toInt) * BitVec.ofInt 32 t.toInt +
          BitVec.ofInt 32 (s.toInt.tmod t.toInt) := by
        rw [quotient, remainder, BitVec.ofInt_toInt]
    _ = BitVec.ofInt 32 (s.toInt.tdiv t.toInt * t.toInt + s.toInt.tmod t.toInt) := by
        rw [BitVec.ofInt_add, BitVec.ofInt_mul]
    _ = s := by rw [Int.tdiv_mul_add_tmod, BitVec.ofInt_toInt]

end MulDiv

section Instructions

variable {δ : Type} [Mmio δ]

/-- The instruction writes HI and LO as the architecture says, and nothing else; in
particular the host is not stopped. -/
def Cpu.MulDivMeets (cpu : Cpu δ) (pc insn : Word) (kind : MulDiv) : Prop :=
  ∃ hi lo, cpu.execute pc insn = { cpu with hi, lo } ∧
    kind.Result (cpu.r (rs insn)) (cpu.r (rt insn)) hi lo

/-- The four instructions meet the architecture on all operands but one pair. -/
theorem mulDivMeets_iff {cpu : Cpu δ} (running : cpu.Running) (pc : Word) {insn : Word}
    {kind : MulDiv} (special : op insn = 0x00) (isKind : funct insn = kind.code) :
    cpu.MulDivMeets pc insn kind ↔
      ¬ kind.Traps (cpu.r (rs insn)) (cpu.r (rt insn)) := by
  have run : cpu.execute pc insn = cpu.execSpecial pc insn := by
    simp [Cpu.execute, special]
  rw [Cpu.MulDivMeets, run]
  cases kind with
  | mult =>
      let product := (cpu.r (rs insn)).signExtend 64 * (cpu.r (rt insn)).signExtend 64
      refine iff_of_true ⟨(product >>> 32).setWidth 32, product.setWidth 32, ?_, ?_⟩
        (MulDiv.not_traps (by decide))
      · simp only [Cpu.execSpecial, isKind, MulDiv.code]
        rfl
      · rw [MulDiv.Result, MulDiv.halves]
        exact MulDiv.mult_result _ _
  | multu =>
      let product := (cpu.r (rs insn)).setWidth 64 * (cpu.r (rt insn)).setWidth 64
      refine iff_of_true ⟨(product >>> 32).setWidth 32, product.setWidth 32, ?_, ?_⟩
        (MulDiv.not_traps (by decide))
      · simp only [Cpu.execSpecial, isKind, MulDiv.code]
        rfl
      · rw [MulDiv.Result, MulDiv.halves]
        exact MulDiv.multu_result _ _
  | divu =>
      refine iff_of_true ?_ (MulDiv.not_traps (by decide))
      by_cases zero : cpu.r (rt insn) = 0
      · refine ⟨cpu.r (rs insn), 0xFFFFFFFF#32, ?_, fun nonzero => absurd zero nonzero⟩
        simp only [Cpu.execSpecial, isKind, MulDiv.code, zero, if_true]
      · refine ⟨_, _, ?_, fun _ => MulDiv.divu_result _ _⟩
        simp only [Cpu.execSpecial, isKind, MulDiv.code, zero, if_false]
  | div =>
      by_cases zero : cpu.r (rt insn) = 0
      · refine iff_of_true
          ⟨cpu.r (rs insn), if (cpu.r (rs insn)).slt 0 then 1 else 0xFFFFFFFF#32, ?_,
            fun nonzero => absurd zero nonzero⟩ ?_
        · simp only [Cpu.execSpecial, isKind, MulDiv.code, zero, if_true]
        · rintro ⟨-, -, divisor⟩
          rw [zero] at divisor
          exact absurd divisor (by decide)
      by_cases traps : cpu.r (rs insn) = 0x80000000#32 ∧ cpu.r (rt insn) = 0xFFFFFFFF#32
      · refine iff_of_false ?_ fun stays => stays ⟨rfl, traps⟩
        rintro ⟨hi, lo, same, -⟩
        have stopped := congrArg Cpu.hostFault same
        simp [Cpu.execSpecial, isKind, MulDiv.code, traps, running.2] at stopped
      · refine iff_of_true ⟨_, _, ?_, fun _ => MulDiv.div_result traps⟩ fun trap => traps trap.2
        simp only [Cpu.execSpecial, isKind, MulDiv.code, zero, traps, if_false]

end Instructions

section Operands

/-- A machine with two operands in registers 8 and 9. -/
def operandMachine (s t : Word) : Cpu Unit :=
  { bareMachine fun _ => 0 with r := fun i => if i = 8 then s else if i = 9 then t else 0 }

/-- `mult $t0, $t1` and `div $t0, $t1` on operands that do not trap. -/
theorem mulDivMeets_small :
    (operandMachine 7#32 0xFFFFFFFE#32).MulDivMeets 0x80001000#32 0x01090018#32 .mult ∧
      (operandMachine 7#32 0xFFFFFFFE#32).MulDivMeets 0x80001000#32 0x0109001A#32 .div :=
  ⟨(mulDivMeets_iff ⟨rfl, rfl⟩ _ (by decide) (by decide)).mpr (by decide),
    (mulDivMeets_iff ⟨rfl, rfl⟩ _ (by decide) (by decide)).mpr (by decide)⟩

/-- The most negative dividend over -1 stops the host. -/
theorem division_stops_host :
    ((operandMachine 0x80000000#32 0xFFFFFFFF#32).execute 0x80001000#32 0x0109001A#32).hostFault =
        true ∧
      ¬ (operandMachine 0x80000000#32 0xFFFFFFFF#32).MulDivMeets 0x80001000#32
        0x0109001A#32 .div := by
  have stops : ((operandMachine 0x80000000#32 0xFFFFFFFF#32).execute 0x80001000#32
      0x0109001A#32).hostFault = true := by decide
  refine ⟨stops, ?_⟩
  rintro ⟨hi, lo, same, -⟩
  have stays := (congrArg Cpu.hostFault same).symm.trans stops
  exact Bool.false_ne_true stays

end Operands

end Ncd15.Emulator
