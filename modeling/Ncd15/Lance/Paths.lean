import Ncd15.Lance.Chip

/-!
# What the receive and transmit paths keep

DMA, descriptors and the receive path leave CSR0 and the interrupt line alone.
The transmit path and the completions change them in a few places; a property
that survives these is kept by a whole poll.
-/

namespace Ncd15.Lance

open Ncd15.Library

section Dma

variable {ν : Type} {view : Chip → ν}

/-- A view of the chip that DMA does not change. -/
structure DmaBlind (view : Chip → ν) : Prop where
  read : ∀ l addr, view { l with log := .dmaIn addr :: l.log } = view l
  write : ∀ l addr data, view { l with log := .dmaOut addr data :: l.log } = view l

theorem dmaInWord_keeps (blind : DmaBlind view) (dmaIn : DmaIn) (addr : Addr) :
    Keeps view (dmaInWord dmaIn addr) := by
  intro l word l' run
  obtain ⟨-, rfl⟩ := Prod.mk.inj (Option.some.inj run)
  exact blind.read l addr

theorem dmaOutWord_keeps (blind : DmaBlind view) (addr : Addr) (data : Half) :
    Keeps view (dmaOutWord addr data) := by
  intro l result l' run
  obtain ⟨-, rfl⟩ := Prod.mk.inj (Option.some.inj run)
  exact blind.write l addr data

theorem readWords_keeps (blind : DmaBlind view) (dmaIn : DmaIn) (addr : Addr) (count : Nat) :
    Keeps view (readWords dmaIn addr count) := by
  induction count generalizing addr with
  | zero => exact .pure _
  | succ count ih =>
      exact .bind (dmaInWord_keeps blind dmaIn addr) fun _ => .bind (ih _) fun _ => .pure _

theorem dmaInPairs_keeps (blind : DmaBlind view) (dmaIn : DmaIn) (bswap : Bool) (length : Nat)
    (addr : Addr) : Keeps view (dmaInPairs dmaIn bswap length addr) := by
  induction length, addr using dmaInPairs.induct with
  | case1 => exact .pure _
  | case2 addr => exact .bind (dmaInWord_keeps blind dmaIn addr) fun _ => .pure _
  | case3 length addr ih =>
      exact .bind (dmaInWord_keeps blind dmaIn addr) fun _ => .bind ih fun _ => .pure _

theorem lanceDmaInBlock_keeps (blind : DmaBlind view) (dmaIn : DmaIn) (addr : Addr) (length : Nat) :
    Keeps view (lanceDmaInBlock dmaIn addr length) := by
  refine .bind .get fun l => ?_
  refine .ite (.bind (dmaInWord_keeps blind _ _) fun _ => ?_) (dmaInPairs_keeps blind _ _ _ _)
  exact .bind (dmaInPairs_keeps blind _ _ _ _) fun _ => .pure _

theorem dmaOutPairs_keeps (blind : DmaBlind view) (bswap : Bool) (buf : List Byte) (addr : Addr) :
    Keeps view (dmaOutPairs bswap buf addr) := by
  induction buf, addr using dmaOutPairs.induct with
  | case1 => exact .pure _
  | case2 b addr => exact dmaOutWord_keeps blind _ _
  | case3 a b rest addr ih => exact .bind (dmaOutWord_keeps blind _ _) fun _ => ih

theorem lanceDmaOutBlock_keeps (blind : DmaBlind view) (addr : Addr) (buf : List Byte) :
    Keeps view (lanceDmaOutBlock addr buf) := by
  refine .bind .get fun l => ?_
  exact .ite (.bind (dmaOutWord_keeps blind _ _) fun _ => dmaOutPairs_keeps blind _ _ _)
    (dmaOutPairs_keeps blind _ _ _)

theorem gather_keeps (blind : DmaBlind view) (dmaIn : DmaIn) (addr : Addr) (txBufLength : Nat)
    (buf : List Byte) : Keeps view (gather dmaIn addr txBufLength buf) :=
  .ite (.bind (lanceDmaInBlock_keeps blind _ _ _) fun _ => .pure _) (.pure _)

end Dma

section Lines

/-- `lance_irq` of the bus, which `lance_intr` sets from the reported state. -/
def lanceIrq : List Event → Bool
  | [] => false
  | .intr state :: _ => !state
  | .dmaIn _ :: log => lanceIrq log
  | .dmaOut _ _ :: log => lanceIrq log
  | .send _ :: log => lanceIrq log

/-- What the interrupt line depends on, and what decides whether the chip is
running. -/
structure Lines where
  csr0 : Csr0
  intrOutState : Bool
  irq : Bool
  idon : Bool

def Chip.lines (l : Chip) : Lines where
  csr0 := l.csr0
  intrOutState := l.intrOutState
  irq := lanceIrq l.log
  idon := l.idon

theorem lines_blind : DmaBlind Chip.lines := ⟨fun _ _ => rfl, fun _ _ _ => rfl⟩

theorem lookAhead_lines (dmaIn : DmaIn) (slot nextSlot : Addr) (md1 : Half) :
    Keeps Chip.lines (lookAhead dmaIn slot nextSlot md1) :=
  .ite (dmaInWord_keeps lines_blind _ _) (.pure _)

theorem receiveNext_lines (dmaIn : DmaIn) (slot : Addr) (offset : Nat) :
    Keeps Chip.lines (receiveNext dmaIn slot offset) := by
  refine .bind .get fun l => .bind (lookAhead_lines _ _ _ _) fun nextMd1 => .ite ?_ ?_
  · refine .bind (dmaOutWord_keeps lines_blind _ _) fun _ => ?_
    exact .bind (.modify fun _ => rfl) fun _ => .pure _
  · exact .bind (.modify fun _ => rfl) fun _ => .pure _

theorem receiveRound_lines (dmaIn : DmaIn) (buf : List Byte) (state : Addr × Nat) :
    Keeps Chip.lines (receiveRound dmaIn buf state) := by
  obtain ⟨slot, offset⟩ := state
  refine .ite (.pure _) ?_
  refine .bind (dmaInWord_keeps lines_blind _ _) fun md0 => .bind (.modify fun _ => rfl) fun _ => ?_
  refine .bind (dmaInWord_keeps lines_blind _ _) fun md2 => .bind (.modify fun _ => rfl) fun _ => ?_
  refine .bind .get fun l => .bind (lanceDmaOutBlock_keeps lines_blind _ _) fun _ => ?_
  exact .bind (.modify fun _ => rfl) fun _ => .ite (receiveNext_lines _ _ _) (.pure _)

theorem lanceReceive_lines (host : Host) (buf : List Byte) :
    Keeps Chip.lines (lanceReceive host buf) := by
  refine .bind .get fun l => .ite (.pure _) (.ite (.pure _) ?_)
  split
  · exact .pure _
  refine .bind (dmaInWord_keeps lines_blind _ _) fun md1 => .bind (.modify fun _ => rfl) fun _ => ?_
  refine .ite (.pure _) (.bind (.modify fun _ => rfl) fun _ => ?_)
  refine .bind (.loop (receiveRound_lines _ _) _ _) fun offset => ?_
  refine .bind (.modify fun l => ?_) fun _ => .pure _
  unfold checkFcs
  dsimp only
  split <;> rfl

theorem markResult_lines (slot : Addr) (result : Int) :
    Keeps Chip.lines (markResult slot result) := by
  refine .bind .get fun l => .ite (.modify fun _ => rfl) ?_
  refine .ite (.bind (.modify fun _ => rfl) fun _ => dmaOutWord_keeps lines_blind _ _) ?_
  exact .ite (.bind (.modify fun _ => rfl) fun _ => dmaOutWord_keeps lines_blind _ _) (.pure _)

end Lines

section Paths

/-- `I` survives the changes that a transmission and a completion make; `S` stands
for `I` between BABL and TINT. -/
structure Carried (I S : Chip → Prop) : Prop where
  lines : ∀ {l l' : Chip}, l'.lines = l.lines → I l → I l'
  sending : ∀ {l l' : Chip}, l'.lines = l.lines → S l → S l'
  polled : ∀ {l : Chip}, I l → I { l with csr0 := { l.csr0 with tdmd := false } }
  underrun : ∀ {l : Chip}, I l → I { l with csr0 := { l.csr0 with txon := false } }
  babble : ∀ {l : Chip} (buf : List Byte), I l → S (babble buf l)
  tint : ∀ {l : Chip}, S l → I (raiseTint l)
  rint : ∀ {l : Chip}, I l → I (raiseRint l)
  miss : ∀ {l : Chip}, I l →
    I (raiseRint { l with csr0 := { l.csr0 with err := true, miss := true } })

variable {I S : Chip → Prop} {host : Host}

theorem Carried.keeps (carried : Carried I S) {α : Type} {f : LanceM α}
    (keeps : Keeps Chip.lines f) : Triple I f fun _ => I :=
  keeps.triple fun _ _ => carried.lines

theorem Carried.keepsSending (carried : Carried I S) {α : Type} {f : LanceM α}
    (keeps : Keeps Chip.lines f) : Triple S f fun _ => S :=
  keeps.triple fun _ _ => carried.sending

theorem lanceRecvComplete_carried (carried : Carried I S) (result : Int) :
    Triple I (lanceRecvComplete result) fun _ => I := by
  refine .ite (fun _ => .pure fun _ => id) fun _ => .ite (fun _ => ?_) fun _ => ?_
  · refine .bind (Q := fun _ l => I (raiseRint l)) (.modify fun l holds => ?_) fun _ => ?_
    · exact carried.miss holds
    · exact .modify fun _ => id
  · refine .bind (carried.keeps .get) fun l => ?_
    refine .bind (carried.keeps (dmaOutWord_keeps lines_blind _ _)) fun _ => ?_
    refine .bind (carried.keeps (dmaOutWord_keeps lines_blind _ _)) fun _ => ?_
    refine .bind (carried.keeps (.modify fun _ => rfl)) fun _ => ?_
    exact .modify fun _ => carried.rint

theorem lanceSendComplete_carried (carried : Carried I S) (result : Int) :
    Triple S (lanceSendComplete result) fun _ => I := by
  refine .bind (carried.keepsSending .get) fun l => ?_
  refine .bind (carried.keepsSending (markResult_lines _ _)) fun _ => ?_
  refine .bind (carried.keepsSending .get) fun marked => ?_
  refine .bind (carried.keepsSending (dmaOutWord_keeps lines_blind _ _)) fun _ => ?_
  refine .bind (carried.keepsSending (.modify fun _ => rfl)) fun _ => ?_
  exact .modify fun _ => carried.tint

theorem transmitNext_carried (carried : Carried I S) (dmaIn : DmaIn) (slot : Addr)
    (buf : List Byte) : Triple I (transmitNext dmaIn slot buf) fun _ => I := by
  refine .bind (carried.keeps .get) fun l => ?_
  refine .bind (carried.keeps (lookAhead_lines _ _ _ _)) fun nextTmd1 => ?_
  refine .ite (fun _ => ?_) fun _ => ?_
  · refine .bind (carried.keeps (dmaOutWord_keeps lines_blind _ _)) fun _ => ?_
    exact .bind (carried.keeps (.modify fun _ => rfl)) fun _ => .pure fun _ => id
  · refine .bind (carried.keeps (.modify fun _ => rfl)) fun _ => ?_
    refine .bind (carried.keeps (dmaOutWord_keeps lines_blind _ _)) fun _ => ?_
    exact .bind (Q := fun _ => I) (.modify fun _ => carried.underrun) fun _ => .pure fun _ => id

theorem transmitRound_carried (carried : Carried I S) (dmaIn : DmaIn)
    (state : Addr × List Byte) : Triple I (transmitRound dmaIn state) fun _ => I := by
  obtain ⟨slot, buf⟩ := state
  refine .bind (carried.keeps (dmaInWord_keeps lines_blind _ _)) fun md0 => ?_
  refine .bind (carried.keeps (.modify fun _ => rfl)) fun _ => ?_
  refine .bind (carried.keeps (dmaInWord_keeps lines_blind _ _)) fun md2 => ?_
  refine .bind (carried.keeps (.modify fun _ => rfl)) fun _ => ?_
  refine .bind (carried.keeps .get) fun l => ?_
  refine .bind (carried.keeps (.modify fun _ => rfl)) fun _ => .ite (fun _ => ?_) fun _ => ?_
  · refine .bind (carried.keeps (dmaOutWord_keeps lines_blind _ _)) fun _ => ?_
    exact .bind (carried.keeps (.modify fun _ => rfl)) fun _ => .pure fun _ => id
  · refine .bind (carried.keeps (gather_keeps lines_blind _ _ _ _)) fun gathered => ?_
    exact .ite (fun _ => transmitNext_carried carried _ _ _) fun _ => .pure fun _ => id

theorem transmitExternal_carried (carried : Carried I S) (frame : List Byte) :
    Triple S (transmitExternal host frame) fun _ => I := by
  refine .bind (carried.keepsSending (.modify fun l => ?_)) fun _ => ?_
  · split <;> rfl
  refine .bind (lanceSendComplete_carried carried _) fun _ => ?_
  refine carried.keeps (.modify fun l => ?_)
  split <;> rfl

theorem transmitFrame_carried (carried : Carried I S) (appendFcs : Bool) (buf : List Byte) :
    Triple I (transmitFrame host appendFcs buf) fun _ => I := by
  refine .bind (Q := fun _ => S) (.modify fun _ => carried.babble buf) fun _ => ?_
  refine .bind (carried.keepsSending .get) fun l => ?_
  refine .ite (fun _ => ?_) fun _ => transmitExternal_carried carried _
  refine .ite (fun _ => lanceSendComplete_carried carried _) fun _ => ?_
  refine .ite (fun _ => lanceSendComplete_carried carried _) fun _ => ?_
  refine .bind (carried.keepsSending (.modify fun _ => rfl)) fun _ => ?_
  exact .ite (fun _ => lanceSendComplete_carried carried _)
    fun _ => transmitExternal_carried carried _

theorem lanceTransmit_carried (carried : Carried I S) (dmaIn : DmaIn) (rounds : Nat) :
    Triple I (lanceTransmit host dmaIn rounds) fun _ => I := by
  refine .bind (carried.keeps .get) fun l => .bind (carried.keeps (.modify fun l => ?_)) fun _ => ?_
  · split <;> rfl
  refine .bind (.loop_keeps (transmitRound_carried carried dmaIn) _ _) fun gathered => ?_
  cases gathered with
  | none => exact .pure fun _ => id
  | some buf => exact transmitFrame_carried carried _ _

theorem pollRing_carried (carried : Carried I S) (rounds : Nat) :
    Triple I (pollRing host rounds) fun _ => I := by
  refine .bind (carried.keeps .get) fun l => .ite (fun _ => ?_) fun _ => .pure fun _ => id
  refine .bind (Q := fun _ => I) (.modify fun _ => carried.polled) fun _ => ?_
  split
  · exact .pure fun _ => id
  refine .bind (carried.keeps (dmaInWord_keeps lines_blind _ _)) fun md1 => ?_
  refine .bind (carried.keeps (.modify fun _ => rfl)) fun _ => ?_
  refine .ite (fun _ => .ite (fun _ => ?_) fun _ => lanceTransmit_carried carried _ _)
    fun _ => .pure fun _ => id
  refine .bind (carried.keeps (dmaOutWord_keeps lines_blind _ _)) fun _ => ?_
  exact carried.keeps (.modify fun _ => rfl)

theorem checkLoopback_carried (carried : Carried I S) :
    Triple I (checkLoopback host) fun _ => I := by
  refine .bind (carried.keeps .get) fun l => .ite (fun _ => ?_) fun _ => .pure fun _ => id
  refine .bind (carried.keeps (lanceReceive_lines _ _)) fun result => ?_
  refine .bind (carried.keeps (.modify fun _ => rfl)) fun _ => ?_
  exact lanceRecvComplete_carried carried _

/-- A whole poll keeps what its changes keep. -/
theorem lanceTransmitPoll_carried (carried : Carried I S) (rounds : Nat) :
    Triple I (lanceTransmitPoll host rounds) fun _ => I :=
  .bind (pollRing_carried carried rounds) fun _ => checkLoopback_carried carried

theorem lanceRecv_carried (carried : Carried I S) (buf : List Byte) :
    Triple I (lanceRecv host buf) fun _ => I := by
  refine .bind (carried.keeps .get) fun l => .ite (fun _ => .pure fun _ => id) fun _ => ?_
  refine .ite (fun _ => .pure fun _ => id) fun _ => ?_
  refine .bind (carried.keeps (lanceReceive_lines _ _)) fun result => ?_
  exact .bind (lanceRecvComplete_carried carried result) fun _ => .pure fun _ => id

end Paths

end Ncd15.Lance
