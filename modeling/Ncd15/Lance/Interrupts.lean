import Ncd15.Lance.Paths

/-!
# The interrupt line of the LANCE

Between two calls of the host the composite flags of CSR0 are those of the
status bits, and the line that was last reported is the one that INEA and INTR
ask for.  While a CSR0 write is under way the flags may lag behind the status
bits; the line follows INTR at every moment.
-/

namespace Ncd15.Lance

open Ncd15.Library

section Consistency

theorem recomputed_eq_iff {c : Csr0} :
    c.recomputed = c ↔
      (c.err = (c.babl || c.cerr || c.miss || c.merr)) ∧
        c.intr = (c.babl || c.miss || c.merr || c.rint || c.tint || c.idon) := by
  constructor
  · intro same
    exact ⟨(congrArg Csr0.err same).symm, (congrArg Csr0.intr same).symm⟩
  · rintro ⟨err, intr⟩
    unfold Csr0.recomputed
    rw [← err, ← intr]

/-- The line follows INEA and INTR and is the one last reported. -/
structure Driven (l : Chip) : Prop where
  output : l.intrOutState = !(l.csr0.inea && l.csr0.intr)
  reported : lanceIrq l.log = !l.intrOutState

/-- The line is driven, and the composite flags are those of the status bits when
they are `fresh`. -/
structure Consistent (fresh : Prop) (l : Chip) : Prop extends Driven l where
  flags : fresh → l.csr0.recomputed = l.csr0

/-- The same while the frame of a transmission is on its way: BABL may not have
raised INTR yet, but TINT will. -/
structure Sending (fresh : Prop) (l : Chip) : Prop extends Driven l where
  err : fresh → l.csr0.recomputed.err = l.csr0.err

variable {fresh : Prop} {host : Host} {l l' : Chip}

theorem Driven.of_lines (driven : Driven l) (same : l'.lines = l.lines) : Driven l' := by
  obtain ⟨csr0, state, irq, -⟩ := Lines.mk.inj same
  constructor
  · rw [csr0, state]
    exact driven.output
  · rw [irq, state]
    exact driven.reported

theorem Consistent.of_lines (consistent : Consistent fresh l) (same : l'.lines = l.lines) :
    Consistent fresh l' := by
  refine ⟨consistent.toDriven.of_lines same, ?_⟩
  rw [(Lines.mk.inj same).1]
  exact consistent.flags

theorem Sending.of_lines (sending : Sending fresh l) (same : l'.lines = l.lines) :
    Sending fresh l' := by
  refine ⟨sending.toDriven.of_lines same, ?_⟩
  rw [(Lines.mk.inj same).1]
  exact sending.err

theorem Consistent.sending (consistent : Consistent fresh l) : Sending fresh l :=
  ⟨consistent.toDriven, fun isFresh => by rw [consistent.flags isFresh]⟩

theorem lanceUpdateInterrupts_consistent (reported : lanceIrq l.log = !l.intrOutState)
    (flags : fresh → l.csr0.recomputed = l.csr0) :
    Consistent fresh (lanceUpdateInterrupts l) := by
  have level : (if l.csr0.inea then !l.csr0.intr else true) = !(l.csr0.inea && l.csr0.intr) := by
    cases l.csr0.inea <;> rfl
  unfold lanceUpdateInterrupts
  dsimp only
  rw [level]
  split
  case isTrue changed => exact ⟨⟨rfl, rfl⟩, flags⟩
  case isFalse same => exact ⟨⟨(not_not.mp same).symm, reported⟩, flags⟩

theorem raiseRint_consistent (reported : lanceIrq l.log = !l.intrOutState)
    (err : fresh → l.csr0.recomputed.err = l.csr0.err) : Consistent fresh (raiseRint l) := by
  refine lanceUpdateInterrupts_consistent reported fun isFresh => ?_
  exact recomputed_eq_iff.mpr ⟨(err isFresh).symm, by simp⟩

theorem raiseTint_consistent (sending : Sending fresh l) : Consistent fresh (raiseTint l) := by
  have raised : Consistent fresh
      (lanceUpdateInterrupts { l with csr0 := { l.csr0 with tint := true, intr := true } }) := by
    refine lanceUpdateInterrupts_consistent sending.reported fun isFresh => ?_
    exact recomputed_eq_iff.mpr ⟨(sending.err isFresh).symm, by simp⟩
  exact raised.of_lines rfl

/-- `c` with the control bits of another register. -/
def Csr0.withControlOf (c control : Csr0) : Csr0 :=
  { c with
    init := control.init
    strt := control.strt
    stop := control.stop
    tdmd := control.tdmd
    txon := control.txon
    rxon := control.rxon }

theorem Consistent.of_control (consistent : Consistent fresh l) {c : Csr0}
    (same : c.withControlOf l.csr0 = l.csr0) : Consistent fresh { l with csr0 := c } := by
  have output := consistent.output
  have flags := fun isFresh => recomputed_eq_iff.mp (consistent.flags isFresh)
  rw [← same] at output flags
  exact ⟨⟨output, consistent.reported⟩, fun isFresh => recomputed_eq_iff.mpr (flags isFresh)⟩

theorem babble_sending (consistent : Consistent fresh l) (buf : List Byte) :
    Sending fresh (babble buf l) := by
  unfold babble
  split
  · exact ⟨⟨consistent.output, consistent.reported⟩, fun _ => by simp [Csr0.recomputed]⟩
  · exact consistent.sending

theorem consistent_carried : Carried (Consistent fresh) (Sending fresh) where
  lines same consistent := consistent.of_lines same
  sending same sending := sending.of_lines same
  polled consistent := consistent.of_control rfl
  underrun consistent := consistent.of_control rfl
  babble buf consistent := babble_sending consistent buf
  tint := raiseTint_consistent
  rint consistent := raiseRint_consistent consistent.reported consistent.sending.err
  miss consistent :=
    raiseRint_consistent consistent.reported fun _ => by simp [Csr0.recomputed]

theorem keeps_consistent {α : Type} {f : LanceM α} (keeps : Keeps Chip.lines f) :
    Triple (Consistent fresh) f fun _ => Consistent fresh :=
  consistent_carried.keeps keeps

end Consistency

section Calls

variable {fresh : Prop} {host : Host} {l : Chip}

theorem raiseIdon_consistent (consistent : Consistent fresh l) :
    Consistent fresh (raiseIdon l) := by
  refine lanceUpdateInterrupts_consistent consistent.reported fun isFresh => ?_
  exact recomputed_eq_iff.mpr ⟨(recomputed_eq_iff.mp (consistent.flags isFresh)).1, by simp⟩

theorem lanceInitialize_consistent :
    Triple (Consistent fresh) (lanceInitialize host) fun _ => Consistent fresh := by
  unfold lanceInitialize
  split
  · exact .pure fun _ => id
  refine .bind (keeps_consistent .get) fun l => ?_
  refine .bind (keeps_consistent (readWords_keeps lines_blind _ _ _)) fun initBlock => ?_
  refine .bind (keeps_consistent (.modify fun _ => rfl)) fun _ => ?_
  exact .modify fun _ => raiseIdon_consistent

theorem lanceReset_consistent (reported : lanceIrq l.log = !l.intrOutState) :
    Consistent fresh (lanceReset l) :=
  lanceUpdateInterrupts_consistent reported fun _ => rfl

theorem demandTransmit_consistent (consistent : Consistent fresh l) :
    Consistent fresh (demandTransmit l) := by
  unfold demandTransmit
  dsimp only
  split
  · exact (consistent.of_control (c := { l.csr0 with
      tdmd := true, strt := true, rxon := _, txon := _ }) rfl).of_lines rfl
  · exact (consistent.of_control (c := { l.csr0 with tdmd := true }) rfl).of_lines rfl

theorem writeCsr0_consistent (rounds : Nat) (data : Csr0) :
    Triple (Consistent True) (writeCsr0 host rounds data) fun _ => Consistent True := by
  refine .ite (fun _ => .modify fun l consistent => ?_) fun _ => ?_
  · split
    · exact lanceReset_consistent consistent.reported
    · exact consistent
  refine .bind (Q := fun _ => Consistent False) (.modify fun l consistent => ?_) fun _ => ?_
  · exact ⟨⟨consistent.output, consistent.reported⟩, False.elim⟩
  refine .bind (Q := fun _ => Consistent False) ?_ fun _ => ?_
  · refine .bind (keeps_consistent .get) fun l => ?_
    exact .ite (fun _ => lanceInitialize_consistent) fun _ => .pure fun _ => id
  refine .bind (Q := fun _ => Consistent False) ?_ fun _ => ?_
  · refine .bind (keeps_consistent .get) fun l => .ite (fun _ => ?_) fun _ => .pure fun _ => id
    refine .bind (Q := fun _ => Consistent False) (.modify fun l consistent => ?_)
      fun _ => lanceTransmitPoll_carried consistent_carried rounds
    exact (consistent.of_control (c := { l.csr0 with
      strt := true, stop := false, rxon := _, txon := _ }) rfl).of_lines rfl
  refine .bind (Q := fun _ => Consistent False) ?_ fun _ => ?_
  · refine .bind (keeps_consistent .get) fun l => .ite (fun _ => ?_) fun _ => .pure fun _ => id
    exact .bind (.modify fun _ => demandTransmit_consistent)
      fun _ => lanceTransmitPoll_carried consistent_carried rounds
  -- INEA has changed, so that only the report is known until the line is updated
  refine .bind (Q := fun _ l => lanceIrq l.log = !l.intrOutState) (.modify fun l consistent => ?_)
    fun _ => .modify fun l reported => lanceUpdateInterrupts_consistent reported fun _ => rfl
  unfold enableInterrupts
  split <;> exact consistent.reported

theorem lanceRegsW_consistent (rounds : Nat) (offset : Int) (data : Half) :
    Triple (Consistent True) (lanceRegsW host rounds offset data) fun _ => Consistent True := by
  refine .bind (keeps_consistent .get) fun l => ?_
  refine .ite (fun _ => keeps_consistent (.modify fun _ => rfl)) fun _ => ?_
  refine .ite (fun _ => writeCsr0_consistent rounds _) fun _ => ?_
  refine .ite (fun _ => .pure fun _ => id) fun _ => ?_
  exact keeps_consistent (.ite (.modify fun _ => rfl)
    (.ite (.modify fun _ => rfl) (.modify fun _ => rfl)))

theorem tickInit_consistent (consistent : Consistent fresh l) (cycles : Int) :
    Consistent fresh (tickInit cycles l) := by
  unfold tickInit
  split
  · exact consistent
  split
  · refine Consistent.of_lines (l := lanceUpdateInterrupts _) ?_ rfl
    refine lanceUpdateInterrupts_consistent consistent.reported fun isFresh => ?_
    exact recomputed_eq_iff.mpr ⟨(recomputed_eq_iff.mp (consistent.flags isFresh)).1, by simp⟩
  · exact consistent.of_lines rfl

theorem lanceTick_consistent (rounds : Nat) (cycles : Int) :
    Triple (Consistent fresh) (lanceTick host rounds cycles) fun _ => Consistent fresh := by
  refine .ite (fun _ => .pure fun _ => id) fun _ => ?_
  refine .bind (Q := fun _ => Consistent fresh) (.modify fun l consistent => ?_) fun _ => ?_
  · exact tickInit_consistent consistent cycles
  refine .bind (keeps_consistent .get) fun l => .ite (fun _ => .ite (fun _ => ?_) fun _ => ?_)
    fun _ => .pure fun _ => id
  · exact .bind (keeps_consistent (.modify fun _ => rfl)) fun _ =>
      lanceTransmitPoll_carried consistent_carried rounds
  · exact keeps_consistent (.modify fun _ => rfl)

theorem call_consistent (call : Call) (rounds : Nat) :
    Triple (Consistent True) (call.run host rounds) fun _ => Consistent True := by
  cases call with
  | regsR offset => exact .pure fun _ => id
  | regsW offset data => exact lanceRegsW_consistent rounds offset data
  | reset => exact .modify fun l consistent => lanceReset_consistent consistent.reported
  | tick cycles => exact lanceTick_consistent rounds cycles
  | recv buf => exact .bind (lanceRecv_carried consistent_carried buf) fun _ => .pure fun _ => id

theorem reached_consistent {variant : Variant} (reached : Reached host variant l) :
    Consistent True l := by
  induction reached with
  | init => exact lanceReset_consistent rfl
  | call _ call rounds run ih => exact call_consistent call rounds _ ih _ _ run

/-- Between any two calls INTR and ERR are set exactly when a bit that they stand
for is, and the interrupt is asserted exactly when INEA and INTR are set. -/
theorem interrupts_of_reached {variant : Variant} (reached : Reached host variant l) :
    (l.csr0.intr = true ↔ l.csr0.babl ∨ l.csr0.miss ∨ l.csr0.merr ∨ l.csr0.rint ∨
        l.csr0.tint ∨ l.csr0.idon) ∧
      (l.csr0.err = true ↔ l.csr0.babl ∨ l.csr0.cerr ∨ l.csr0.miss ∨ l.csr0.merr) ∧
      (l.intrOutState = false ↔ l.csr0.inea ∧ l.csr0.intr) ∧
      (lanceIrq l.log = true ↔ l.csr0.inea ∧ l.csr0.intr) := by
  have consistent := reached_consistent reached
  obtain ⟨err, intr⟩ := recomputed_eq_iff.mp (consistent.flags trivial)
  have output := consistent.output
  refine ⟨?_, ?_, ?_, ?_⟩
  · rw [intr]
    simp [or_assoc]
  · rw [err]
    simp [or_assoc]
  · rw [output]
    simp
  · rw [consistent.reported, output]
    simp

theorem interrupts_of_reached_init :
    ∃ l, (Call.regsW 0 0x0041#16).run zeroHost 1 (lanceInit .am79c90) = some ((), l) ∧
      (lanceIrq l.log = true ↔ l.csr0.inea ∧ l.csr0.intr) := by
  have returns : ((Call.regsW 0 0x0041#16).run zeroHost 1 (lanceInit .am79c90)).isSome = true := by
    decide +kernel
  obtain ⟨⟨⟨⟩, l⟩, run⟩ := Option.isSome_iff_exists.mp returns
  exact ⟨l, run, (interrupts_of_reached (Reached.init.call _ 1 run)).2.2.2⟩

end Calls

end Ncd15.Lance
