import Ncd15.Lance.RingWatch

/-!
# The rings in every run

The position of a ring is below its length and the mask clears the bit of that length, so that
the next position is one step around.  One lemma for each part of the code carries this through
the parts that access descriptors, and shows that the chip under watch does what the chip does.
-/

namespace Ncd15.Lance

open Ncd15.Library

section Positions

/-- A ring of the chip is the one of the init block, with a position in it. -/
structure InRing (e : Extent) (r : RingRegs) : Prop where
  base : r.base = e.base
  aligned : e.base.toNat % 8 = 0
  ring : Ring e.exponent r.mask r.pos

variable {e : Extent} {r : RingRegs}

theorem InRing.next (inRing : InRing e r) : InRing e r.next := by
  have ring := inRing.ring
  have step := ring.next 0
  rw [ring.ringPos_zero] at step
  refine ⟨inRing.base, inRing.aligned, ring.small, ring.mask, ?_⟩
  rw [RingRegs.next, step, ring.ringPos_toNat]
  exact Nat.mod_lt _ (Nat.two_pow_pos _)

/-- The advance of the code is one step around the ring. -/
theorem InRing.next_pos (inRing : InRing e r) :
    r.next.pos.toNat = (r.pos.toNat + 1) % 2 ^ e.exponent := by
  have ring := inRing.ring
  have step := ring.next 0
  rw [ring.ringPos_zero] at step
  rw [RingRegs.next, step, ring.ringPos_toNat]

/-- The words of the current descriptor lie in the ring. -/
theorem InRing.contains (inRing : InRing e r) {word : Addr} (offset : WordOffset word) :
    e.Contains (r.slot ||| word) := by
  have inside := inRing.ring.inside
  have short := inRing.ring.length_le
  have small := offset.small_even
  have even : word.toNat % 2 = 0 := by
    have masked := busWord_toNat word
    rw [small.2] at masked
    omega
  have address : (r.slot ||| word).toNat =
      8 * ((r.base.toNat / 8 + r.pos.toNat) % 2 ^ 21) + word.toNat :=
    ringWord_toNat r.base r.pos small.1
  have aligned := inRing.aligned
  rw [← inRing.base] at aligned
  rw [Extent.Contains, ← inRing.base, BitVec.toNat_sub, address]
  have := small.1
  have := r.base.isLt
  omega

end Positions

section Rules

/-- What holds of the record and the chip at every moment. -/
structure InRings (s : Overseen) : Prop where
  inside : s.inside = true
  stepped : s.stepped = true
  ring : ∀ side, InRing (s.rings side) (s.chip.ring side)

/-- From rings with `P`, code under watch does what the code of the chip does, stays in the
rings, and returns with `Q`. -/
def Oversees {α : Type} (P : (Side → RingRegs) → Prop) (a : OverseenM α) (p : LanceM α)
    (Q : α → (Side → RingRegs) → Prop) : Prop :=
  Audit.Follows Overseen.chip InRings (fun l => P l.ring) a p fun x l => Q x l.ring

variable {α β : Type} {P P' : (Side → RingRegs) → Prop} {Q Q' : α → (Side → RingRegs) → Prop}
  {R : β → (Side → RingRegs) → Prop} {side : Side} {addr : Addr}

namespace Oversees

theorem pure {x : α} (post : ∀ r, P r → Q x r) : Oversees P (Pure.pure x) (Pure.pure x) Q :=
  Audit.Follows.pure fun l : Chip => post l.ring

theorem bind {a : OverseenM α} {p : LanceM α} {b : α → OverseenM β} {q : α → LanceM β}
    (first : Oversees P a p Q) (second : ∀ x, Oversees (Q x) (b x) (q x) R) :
    Oversees P (a >>= b) (p >>= q) R :=
  Audit.Follows.bind first second

theorem ite {c : Prop} [Decidable c] {a b : OverseenM α} {p q : LanceM α}
    (yes : c → Oversees P a p Q) (no : ¬ c → Oversees P b q Q) :
    Oversees P (if c then a else b) (if c then p else q) Q :=
  Audit.Follows.ite yes no

theorem conseq {a : OverseenM α} {p : LanceM α} (oversees : Oversees P a p Q)
    (pre : ∀ r, P' r → P r) (post : ∀ x r, Q x r → Q' x r) : Oversees P' a p Q' :=
  Audit.Follows.conseq oversees (fun l : Chip => pre l.ring) fun x l => post x l.ring

theorem loop {I : β → (Side → RingRegs) → Prop} {body : β → OverseenM (β ⊕ α)}
    {round : β → LanceM (β ⊕ α)} (step : ∀ b, Oversees (I b) (body b) (round b) (Sum.elim I Q))
    (rounds : Nat) (b : β) :
    Oversees (I b) (Audit.loop body rounds b) (Prog.loop round rounds b) Q := by
  refine Audit.Follows.loop (I := fun b (l : Chip) => I b l.ring) (fun b => ?_) rounds b
  refine Audit.Follows.conseq (step b) (fun _ => id) fun result l holds => ?_
  cases result <;> exact holds

/-- Code that begins by reading the chip. -/
theorem get_bind {a : Chip → OverseenM α} {p : Chip → LanceM α}
    (rest : ∀ l, Oversees (fun r => P r ∧ r = l.ring) (a l) (p l) Q) :
    Oversees P (Oversee.chip >>= a) (get >>= p) Q :=
  fun s good pre => rest s.chip s good ⟨pre, rfl⟩

theorem get_any {a : Chip → OverseenM α} {p : Chip → LanceM α}
    (rest : ∀ l, Oversees P (a l) (p l) Q) : Oversees P (Oversee.chip >>= a) (get >>= p) Q :=
  get_bind fun l => (rest l).conseq (fun _ => And.left) fun _ _ => id

theorem done {a : OverseenM α} {p : LanceM α} (oversees : Oversees P a p Q) :
    Oversees P a p fun _ _ => True :=
  oversees.conseq (fun _ => id) fun _ _ _ => trivial

/-- Code without a descriptor. -/
theorem quietly {p : LanceM α} (keeps : Keeps Chip.ring p) :
    Oversees P (Oversee.quietly p) p fun _ => P := by
  intro s good pre
  unfold Oversee.quietly
  cases run : p s.chip with
  | none => exact ⟨good, rfl, nofun⟩
  | some result =>
      obtain ⟨x, l⟩ := result
      have same : l.ring = s.chip.ring := keeps _ _ _ run
      refine ⟨⟨good.inside, ?_, fun side => ?_⟩, rfl, fun _ _ => ?_⟩
      · change (s.stepped && decide _) = true
        rw [good.stepped, same]
        simp
      · change InRing (s.rings side) (l.ring side)
        rw [same]
        exact good.ring side
      · change P l.ring
        rw [same]
        exact pre

theorem change {f : Chip → Chip} (same : ∀ l, (f l).ring = l.ring) :
    Oversees P (Oversee.quietly (modify f)) (modify f) fun _ => P :=
  quietly (.modify same)

/-- An access to the current descriptor or to the next one. -/
theorem access {p : LanceM α} (keeps : Keeps Chip.ring p)
    (here : ∀ r, P r → ∃ word, WordOffset word ∧
      (addr = (r side).slot ||| word ∨ addr = (r side).next.slot ||| word)) :
    Oversees P (Oversee.access side addr p) p fun _ => P := by
  intro s good pre
  obtain ⟨word, offset, here⟩ := here _ pre
  have contains : (s.rings side).Contains addr := by
    rcases here with rfl | rfl
    · exact (good.ring side).contains offset
    · exact (good.ring side).next.contains offset
  have good' : InRings { s with inside := s.inside && decide ((s.rings side).Contains addr) } :=
    ⟨by rw [good.inside, decide_eq_true contains]; rfl, good.stepped, good.ring⟩
  exact quietly keeps _ good' pre

/-- A change of the position by one. -/
theorem advance {f : Chip → Chip}
    (next : ∀ l, P l.ring → (f l).ring = Function.update l.ring side (l.ring side).next) :
    Oversees P (Oversee.advance side f) (modify f) fun _ r =>
      ∃ before, P before ∧ r = Function.update before side (before side).next := by
  intro s good pre
  have ring := next s.chip pre
  have other : side.other ≠ side := by cases side <;> decide
  refine ⟨⟨good.inside, ?_, fun at_ => ?_⟩, rfl, fun _ _ => ⟨_, pre, ring⟩⟩
  · change (s.stepped && decide _) = true
    rw [good.stepped, ring, Function.update_self, Function.update_of_ne other,
      (good.ring side).next_pos]
    simp
  · change InRing (s.rings at_) ((f s.chip).ring at_)
    rw [ring]
    by_cases same : at_ = side
    · subst same
      rw [Function.update_self]
      exact (good.ring at_).next
    · rw [Function.update_of_ne same]
      exact good.ring at_

/-- New rings. -/
theorem restart {f : Chip → Chip} {initBlock : List Half}
    (fresh : ∀ l side, InRing (extents initBlock side) ((f l).ring side)) :
    Oversees P (Oversee.restart initBlock f) (modify f) fun _ _ => True :=
  fun s good _ => ⟨⟨good.inside, good.stepped, fresh s.chip⟩, rfl, fun _ _ => trivial⟩

end Oversees

end Rules

section Receive

variable {P : (Side → RingRegs) → Prop} {side : Side} {dmaIn : DmaIn} {host : Host} {l l' : Chip}

theorem ring_blind : DmaBlind Chip.ring := ⟨fun _ _ => rfl, fun _ _ _ => rfl⟩

theorem lanceUpdateInterrupts_ring (l : Chip) : (lanceUpdateInterrupts l).ring = l.ring := by
  unfold lanceUpdateInterrupts
  extract_lets newState
  split <;> rfl

/-- The descriptor that the code has at hand is the current one. -/
def AtSlot (side : Side) (slot : Addr) (r : Side → RingRegs) : Prop := slot = (r side).slot

theorem Chip.atSlot (l : Chip) (side : Side) {r : Side → RingRegs} (pre : P r ∧ r = l.ring) :
    AtSlot side (l.ring side).slot r := by
  rw [pre.2]
  rfl

theorem AtSlot.word {slot word : Addr} {r : Side → RingRegs} (here : AtSlot side slot r)
    (offset : WordOffset word) : ∃ word', WordOffset word' ∧
      (slot ||| word = (r side).slot ||| word' ∨ slot ||| word = (r side).next.slot ||| word') :=
  ⟨word, offset, .inl (by rw [show slot = (r side).slot from here])⟩

theorem AtSlot.first {slot : Addr} {r : Side → RingRegs} (here : AtSlot side slot r) :
    ∃ word', WordOffset word' ∧
      (slot = (r side).slot ||| word' ∨ slot = (r side).next.slot ||| word') :=
  ⟨0#32, by decide, .inl (by rw [show slot = (r side).slot from here, BitVec.or_zero])⟩

theorem readDesc_oversees (dmaIn : DmaIn) (addr : Addr)
    (here : ∀ r, P r → ∃ word, WordOffset word ∧
      (addr = (r side).slot ||| word ∨ addr = (r side).next.slot ||| word)) :
    Oversees P (Oversee.readDesc dmaIn side addr) (dmaInWord dmaIn addr) fun _ => P :=
  .access (dmaInWord_keeps ring_blind dmaIn addr) here

theorem writeDesc_oversees (addr : Addr) (data : Half)
    (here : ∀ r, P r → ∃ word, WordOffset word ∧
      (addr = (r side).slot ||| word ∨ addr = (r side).next.slot ||| word)) :
    Oversees P (Oversee.writeDesc side addr data) (dmaOutWord addr data) fun _ => P :=
  .access (dmaOutWord_keeps ring_blind addr data) here

theorem lookAhead_oversees (slot nextSlot : Addr) (md1 : Half)
    (next : ∀ r, P r → nextSlot = (r side).next.slot) :
    Oversees P (Oversee.lookAhead dmaIn side slot nextSlot md1)
      (lookAhead dmaIn slot nextSlot md1) fun _ => P :=
  .ite (fun _ => readDesc_oversees _ _ fun r pre => ⟨2, by decide, .inr (by rw [next r pre])⟩)
    fun _ => .pure fun _ => id

/-- The receive ring one step on, when the next position was computed before. -/
theorem ring_rx_moved (same : l'.ring = l.ring) (md1 : Half) :
    Chip.ring { l' with rxRingPos := (l.rxRingPos + 1) &&& l.rxRingMask, rxMd1 := md1 } =
      Function.update l'.ring .rx (l'.ring .rx).next := by
  have regs := congrFun same .rx
  rw [Chip.ring, Chip.ring, RingRegs.mk.injEq] at regs
  funext side
  cases side with
  | rx =>
      rw [Function.update_self, RingRegs.next, Chip.ring, Chip.ring, ← regs.2.1, ← regs.2.2]
  | tx => rfl

theorem receiveNext_oversees (slot : Addr) (offset : Nat) :
    Oversees (AtSlot .rx slot) (Oversee.receiveNext dmaIn slot offset)
      (receiveNext dmaIn slot offset) (Sum.elim (fun b => AtSlot .rx b.1) fun _ _ => True) := by
  refine .get_bind fun l => ?_
  refine .bind (lookAhead_oversees _ _ _ ?_) fun nextMd1 => .ite (fun _ => ?_) fun _ => ?_
  · rintro r ⟨-, rfl⟩
    rfl
  · refine .bind (writeDesc_oversees _ _ fun r pre => pre.1.word (by decide)) fun _ => ?_
    refine .bind (.advance fun l' pre => ring_rx_moved pre.2 nextMd1) fun _ => .pure ?_
    rintro r ⟨before, ⟨-, rfl⟩, rfl⟩
    rfl
  · exact .bind (.change fun _ => rfl) fun _ => .pure fun _ _ => trivial

theorem receiveRound_oversees (dmaIn : DmaIn) (buf : List Byte) (state : Addr × Nat) :
    Oversees (AtSlot .rx state.1) (Oversee.receiveRound dmaIn buf state)
      (receiveRound dmaIn buf state) (Sum.elim (fun b => AtSlot .rx b.1) fun _ _ => True) := by
  obtain ⟨slot, offset⟩ := state
  refine .ite (fun _ => .pure fun _ _ => trivial) fun _ => ?_
  refine .bind (readDesc_oversees _ _ fun r here => here.first) fun md0 => ?_
  refine .bind (.change fun _ => rfl) fun _ => ?_
  refine .bind (readDesc_oversees _ _ fun r here => here.word (by decide)) fun md2 => ?_
  refine .bind (.change fun _ => rfl) fun _ => .get_bind fun l => ?_
  refine .bind (.quietly (lanceDmaOutBlock_keeps ring_blind _ _)) fun _ => ?_
  refine .bind (.change fun _ => rfl) fun _ => .ite (fun _ => ?_) fun _ => ?_
  · exact (receiveNext_oversees _ _).conseq (fun r pre => pre.1) fun _ _ => id
  · exact .pure fun r pre => pre.1

theorem lanceReceive_oversees (buf : List Byte) :
    Oversees P (Oversee.lanceReceive host buf) (lanceReceive host buf) fun _ _ => True := by
  refine .get_bind fun l => .ite (fun _ => .pure fun _ _ => trivial) fun _ => ?_
  refine .ite (fun _ => .pure fun _ _ => trivial) fun _ => ?_
  cases host.dma with
  | none => exact .pure fun _ _ => trivial
  | some dmaIn =>
      have first := readDesc_oversees (P := AtSlot .rx (l.ring .rx).slot) dmaIn _
        fun r here => here.word (by decide : WordOffset 2)
      refine .bind (first.conseq (fun r => l.atSlot .rx) fun _ _ => id) fun md1 => ?_
      refine .bind (.change fun _ => rfl) fun _ => .ite (fun _ => .pure fun _ _ => trivial) ?_
      refine fun _ => .bind (.change fun _ => rfl) fun _ => ?_
      have whole := Oversees.loop (I := fun b : Addr × Nat => AtSlot .rx b.1)
        (receiveRound_oversees dmaIn buf) (buf.length + 1) ((l.ring .rx).slot, 0)
      refine .bind whole fun offset => ?_
      refine .bind (.change fun l => ?_) fun _ => .pure fun _ _ => trivial
      unfold checkFcs
      dsimp only
      split <;> rfl

theorem lanceRecvComplete_oversees (result : Int) :
    Oversees P (Oversee.lanceRecvComplete result) (lanceRecvComplete result) fun _ _ => True := by
  have rint (l : Chip) : (raiseRint l).ring = l.ring := lanceUpdateInterrupts_ring _
  refine .ite (fun _ => .pure fun _ _ => trivial) fun _ => .ite (fun _ => ?_) fun _ => ?_
  · exact .bind (.change fun _ => rfl) fun _ => (Oversees.change rint).done
  · refine .get_bind fun l => ?_
    have here (r : Side → RingRegs) := l.atSlot (P := P) .rx (r := r)
    refine .bind (writeDesc_oversees _ _ fun r pre => (here r pre).word (by decide)) fun _ => ?_
    refine .bind (writeDesc_oversees _ _ fun r pre => (here r pre).word (by decide)) fun _ => ?_
    refine .bind (.advance fun l' _ => ?_) fun _ => ?_
    · funext side
      cases side <;> rfl
    · exact (Oversees.change rint).done

theorem lanceRecv_oversees (buf : List Byte) :
    Oversees P (Oversee.lanceRecv host buf) (lanceRecv host buf) fun _ _ => True := by
  refine .get_bind fun l => .ite (fun _ => .pure fun _ _ => trivial) fun _ => ?_
  refine .ite (fun _ => .pure fun _ _ => trivial) fun _ => ?_
  refine .bind (lanceReceive_oversees buf) fun result => ?_
  exact .bind (lanceRecvComplete_oversees result) fun _ => .pure fun _ _ => trivial

end Receive

section Transmit

variable {P : (Side → RingRegs) → Prop} {dmaIn : DmaIn} {host : Host} {l l' : Chip} {rounds : Nat}

theorem advanceTx_ring (l : Chip) :
    (advanceTx l).ring = Function.update l.ring .tx (l.ring .tx).next := by
  funext side
  cases side <;> rfl

theorem raiseTint_ring (l : Chip) : (raiseTint l).ring = l.ring :=
  lanceUpdateInterrupts_ring { l with csr0 := { l.csr0 with tint := true, intr := true } }

theorem markResult_oversees {slot : Addr} (result : Int) (here : ∀ r, P r → AtSlot .tx slot r) :
    Oversees P (Oversee.markResult slot result) (markResult slot result) fun _ => P := by
  have status (data : Half) :
      Oversees P (Oversee.writeDesc .tx (slot ||| 6) data) (dmaOutWord (slot ||| 6) data)
        fun _ => P :=
    writeDesc_oversees _ _ fun r pre => (here r pre).word (by decide)
  refine .get_any fun l => .ite (fun _ => .change fun _ => rfl) fun _ => ?_
  refine .ite (fun _ => .bind (.change fun _ => rfl) fun _ => status _) fun _ => ?_
  refine .ite (fun _ => .bind (.change fun _ => rfl) fun _ => status _) fun _ => ?_
  exact .pure fun _ => id

theorem lanceSendComplete_oversees (result : Int) :
    Oversees P (Oversee.lanceSendComplete result) (lanceSendComplete result) fun _ _ => True := by
  refine .get_bind fun l => ?_
  have here (r : Side → RingRegs) := l.atSlot (P := P) .tx (r := r)
  refine .bind (markResult_oversees result here) fun _ => .get_any fun marked => ?_
  refine .bind (writeDesc_oversees _ _ fun r pre => (here r pre).word (by decide)) fun _ => ?_
  refine .bind (.advance fun l _ => advanceTx_ring l) fun _ => ?_
  exact (Oversees.change raiseTint_ring).done

/-- The transmit ring one step on, when the next position was computed before. -/
theorem ring_tx_moved (same : l'.ring = l.ring) (md1 : Half) :
    Chip.ring { l' with txRingPos := (l.txRingPos + 1) &&& l.txRingMask, txMd1 := md1 } =
      Function.update l'.ring .tx (l'.ring .tx).next := by
  have regs := congrFun same .tx
  rw [Chip.ring, Chip.ring, RingRegs.mk.injEq] at regs
  funext side
  cases side with
  | rx => rfl
  | tx =>
      rw [Function.update_self, RingRegs.next, Chip.ring, Chip.ring, ← regs.2.1, ← regs.2.2]

theorem transmitNext_oversees (slot : Addr) (buf : List Byte) :
    Oversees (AtSlot .tx slot) (Oversee.transmitNext dmaIn slot buf) (transmitNext dmaIn slot buf)
      (Sum.elim (fun b => AtSlot .tx b.1) fun _ _ => True) := by
  refine .get_bind fun l => ?_
  refine .bind (lookAhead_oversees _ _ _ ?_) fun nextTmd1 => .ite (fun _ => ?_) fun _ => ?_
  · rintro r ⟨-, rfl⟩
    rfl
  · refine .bind (writeDesc_oversees _ _ fun r pre => pre.1.word (by decide)) fun _ => ?_
    refine .bind (.advance fun l' pre => ring_tx_moved pre.2 nextTmd1) fun _ => .pure ?_
    rintro r ⟨before, ⟨-, rfl⟩, rfl⟩
    rfl
  · refine .bind (.change fun _ => rfl) fun _ => ?_
    refine .bind (writeDesc_oversees _ _ fun r pre => pre.1.word (by decide)) fun _ => ?_
    exact .bind (.change fun _ => rfl) fun _ => .pure fun _ _ => trivial

theorem transmitRound_oversees (dmaIn : DmaIn) (state : Addr × List Byte) :
    Oversees (AtSlot .tx state.1) (Oversee.transmitRound dmaIn state) (transmitRound dmaIn state)
      (Sum.elim (fun b => AtSlot .tx b.1) fun _ _ => True) := by
  obtain ⟨slot, buf⟩ := state
  refine .bind (readDesc_oversees _ _ fun r here => here.first) fun md0 => ?_
  refine .bind (.change fun _ => rfl) fun _ => ?_
  refine .bind (readDesc_oversees _ _ fun r here => here.word (by decide)) fun md2 => ?_
  refine .bind (.change fun _ => rfl) fun _ => .get_any fun l => ?_
  refine .bind (.change fun _ => rfl) fun _ => .ite (fun _ => ?_) fun _ => ?_
  · refine .bind (writeDesc_oversees _ _ fun r here => here.word (by decide)) fun _ => ?_
    exact .bind (.advance fun l _ => advanceTx_ring l) fun _ => .pure fun _ _ => trivial
  · refine .bind (.quietly (gather_keeps ring_blind _ _ _ _)) fun gathered => ?_
    exact .ite (fun _ => transmitNext_oversees _ _) fun _ => .pure fun _ _ => trivial

theorem transmitExternal_oversees (frame : List Byte) :
    Oversees P (Oversee.transmitExternal host frame) (transmitExternal host frame)
      fun _ _ => True := by
  refine .bind (.change fun l => ?_) fun _ => .bind (lanceSendComplete_oversees _) fun _ => ?_
  · split <;> rfl
  · refine .change fun l => ?_
    split <;> rfl

theorem transmitFrame_oversees (appendFcs : Bool) (buf : List Byte) :
    Oversees P (Oversee.transmitFrame host appendFcs buf) (transmitFrame host appendFcs buf)
      fun _ _ => True := by
  have babbled (l : Chip) : (babble buf l).ring = l.ring := by
    unfold babble
    split <;> rfl
  refine .bind (.change babbled) fun _ => .get_any fun l => ?_
  refine .ite (fun _ => ?_) fun _ => transmitExternal_oversees _
  refine .ite (fun _ => lanceSendComplete_oversees _) fun _ => ?_
  refine .ite (fun _ => lanceSendComplete_oversees _) fun _ => ?_
  refine .bind (.change fun _ => rfl) fun _ => ?_
  exact .ite (fun _ => lanceSendComplete_oversees _) fun _ => transmitExternal_oversees _

theorem lanceTransmit_oversees :
    Oversees P (Oversee.lanceTransmit host dmaIn rounds) (lanceTransmit host dmaIn rounds)
      fun _ _ => True := by
  refine .get_bind fun l => ?_
  have here (r : Side → RingRegs) := l.atSlot (P := P) .tx (r := r)
  have chain := Oversees.loop (I := fun b : Addr × List Byte => AtSlot .tx b.1)
    (transmitRound_oversees dmaIn) rounds ((l.ring .tx).slot, [])
  refine .bind (.change fun l => ?_) fun _ => .bind (chain.conseq here fun _ _ => id) ?_
  · split <;> rfl
  · intro gathered
    cases gathered with
    | none => exact .pure fun _ _ => trivial
    | some buf => exact transmitFrame_oversees _ buf

theorem pollRing_oversees :
    Oversees P (Oversee.pollRing host rounds) (pollRing host rounds) fun _ _ => True := by
  refine .get_bind fun l => .ite (fun _ => ?_) fun _ => .pure fun _ _ => trivial
  refine .bind (.change fun _ => rfl) fun _ => ?_
  have here (r : Side → RingRegs) := l.atSlot (P := P) .tx (r := r)
  cases host.dma with
  | none => exact .pure fun _ _ => trivial
  | some dmaIn =>
      refine .bind (readDesc_oversees _ _ fun r pre => (here r pre).word (by decide)) fun md1 => ?_
      refine .bind (.change fun _ => rfl) fun _ => ?_
      refine .ite (fun _ => .ite (fun _ => ?_) fun _ => lanceTransmit_oversees) ?_
      · refine .bind (writeDesc_oversees _ _ fun r pre => (here r pre).word (by decide)) fun _ => ?_
        exact (Oversees.advance fun l _ => advanceTx_ring l).done
      · exact fun _ => .pure fun _ _ => trivial

theorem checkLoopback_oversees :
    Oversees P (Oversee.checkLoopback host) (checkLoopback host) fun _ _ => True := by
  refine .get_any fun l => .ite (fun _ => ?_) fun _ => .pure fun _ _ => trivial
  refine .bind (lanceReceive_oversees _) fun result => ?_
  exact .bind (.change fun _ => rfl) fun _ => lanceRecvComplete_oversees result

theorem lanceTransmitPoll_oversees :
    Oversees P (Oversee.lanceTransmitPoll host rounds) (lanceTransmitPoll host rounds)
      fun _ _ => True :=
  .bind pollRing_oversees fun _ => checkLoopback_oversees

end Transmit

section Control

variable {P : (Side → RingRegs) → Prop} {host : Host} {rounds : Nat}

/-- An init block puts the positions at the start of its rings. -/
theorem withInitBlock_inRing (initBlock : List Half) (l : Chip) (side : Side) :
    InRing (extents initBlock side) ((l.withInitBlock initBlock).ring side) := by
  have ring (word : Half) :
      Ring (word.toNat / 2 ^ 13) (~~~(1#8 <<< (word.extractLsb' 13 3).toNat)) 0 := by
    have whole := word.isLt
    refine ⟨by omega, .inl ?_, Nat.two_pow_pos _⟩
    rw [BitVec.extractLsb'_toNat, Nat.shiftRight_eq_div_pow, Nat.mod_eq_of_lt (by omega)]
  have aligned (base : Addr) : (base &&& 0xFFFFF8#32).toNat % 8 = 0 := by
    rw [ringMasked_toNat]
    omega
  cases side with
  | rx => exact ⟨rfl, aligned _, ring _⟩
  | tx => exact ⟨rfl, aligned _, ring _⟩

theorem lanceInitialize_oversees :
    Oversees P (Oversee.lanceInitialize host) (lanceInitialize host) fun _ _ => True := by
  unfold Oversee.lanceInitialize lanceInitialize
  cases host.dma with
  | none => exact .pure fun _ _ => trivial
  | some dmaIn =>
      refine .get_any fun l => ?_
      refine .bind (.quietly (readWords_keeps ring_blind _ _ _)) fun initBlock => ?_
      refine .bind (.restart (withInitBlock_inRing initBlock)) fun _ => ?_
      exact .change fun l => lanceUpdateInterrupts_ring _

theorem writeInit_oversees (data : Csr0) :
    Oversees P (Oversee.writeInit host data) (writeInit host data) fun _ _ => True :=
  .get_any fun _ => .ite (fun _ => lanceInitialize_oversees) fun _ => .pure fun _ _ => trivial

theorem writeStrt_oversees (data : Csr0) :
    Oversees P (Oversee.writeStrt host rounds data) (writeStrt host rounds data)
      fun _ _ => True := by
  refine .get_any fun l => .ite (fun _ => ?_) fun _ => .pure fun _ _ => trivial
  exact .bind (.change fun _ => rfl) fun _ => lanceTransmitPoll_oversees

theorem writeTdmd_oversees (data : Csr0) :
    Oversees P (Oversee.writeTdmd host rounds data) (writeTdmd host rounds data)
      fun _ _ => True := by
  refine .get_any fun l => .ite (fun _ => ?_) fun _ => .pure fun _ _ => trivial
  exact .bind (.change fun _ => rfl) fun _ => lanceTransmitPoll_oversees

theorem writeCsr0_oversees (data : Csr0) :
    Oversees P (Oversee.writeCsr0 host rounds data) (writeCsr0 host rounds data)
      fun _ _ => True := by
  refine .ite (fun _ => Oversees.done (.change fun l => ?_)) fun _ => ?_
  · split
    · exact lanceUpdateInterrupts_ring _
    · rfl
  refine .bind (.change fun _ => rfl) fun _ => ?_
  refine .bind (writeInit_oversees data) fun _ => .bind (writeStrt_oversees data) fun _ => ?_
  refine .bind (writeTdmd_oversees data) fun _ => .bind (.change fun l => ?_) fun _ => ?_
  · unfold enableInterrupts
    split <;> rfl
  · exact .change fun l => lanceUpdateInterrupts_ring _

theorem lanceRegsW_oversees (offset : Int) (data : Half) :
    Oversees P (Oversee.lanceRegsW host rounds offset data) (lanceRegsW host rounds offset data)
      fun _ _ => True := by
  refine .get_any fun l => .ite (fun _ => Oversees.done (.change fun _ => rfl)) fun _ => ?_
  refine .ite (fun _ => writeCsr0_oversees _) fun _ => ?_
  refine .ite (fun _ => .pure fun _ _ => trivial) fun _ => ?_
  refine .ite (fun _ => Oversees.done (.change fun _ => rfl)) fun _ => ?_
  exact Oversees.done (.ite (fun _ => .change fun _ => rfl) fun _ => .change fun _ => rfl)

theorem tickInit_ring (cycles : Int) (l : Chip) : (tickInit cycles l).ring = l.ring := by
  unfold tickInit
  split
  · rfl
  split
  · exact lanceUpdateInterrupts_ring
      { l with csr0 := { l.csr0 with init := false, idon := true, intr := true }, idon := false }
  · rfl

theorem lanceTick_oversees (cycles : Int) :
    Oversees P (Oversee.lanceTick host rounds cycles) (lanceTick host rounds cycles)
      fun _ _ => True := by
  refine .ite (fun _ => .pure fun _ _ => trivial) fun _ => ?_
  refine .bind (.change (tickInit_ring cycles)) fun _ => .get_any fun l => ?_
  refine .ite (fun _ => .ite (fun _ => ?_) fun _ => ?_) fun _ => .pure fun _ _ => trivial
  · exact .bind (.change fun _ => rfl) fun _ => lanceTransmitPoll_oversees
  · exact Oversees.done (.change fun _ => rfl)

theorem call_oversees (host : Host) (rounds : Nat) (call : Call) :
    Oversees P (Oversee.call host rounds call) (call.run host rounds) fun _ _ => True := by
  cases call with
  | regsR offset => exact .pure fun _ _ => trivial
  | regsW offset data => exact lanceRegsW_oversees offset data
  | reset => exact Oversees.done (.change fun l => lanceUpdateInterrupts_ring _)
  | tick cycles => exact lanceTick_oversees cycles
  | recv buf => exact .bind (lanceRecv_oversees buf) fun _ => .pure fun _ _ => trivial

end Control

section Runs

variable {host : Host} {variant : Variant} {s : Overseen}

theorem start_inRings (variant : Variant) : InRings (Overseen.start variant) := by
  have same : (lanceInit variant).ring = (lanceBlank variant).ring := lanceUpdateInterrupts_ring _
  refine ⟨rfl, rfl, fun side => ?_⟩
  change InRing ⟨0, 0⟩ ((lanceInit variant).ring side)
  rw [same]
  cases side <;> exact ⟨rfl, rfl, by decide, .inr ⟨rfl, rfl⟩, Nat.two_pow_pos _⟩

/-- A call under watch, also one that does not return. -/
theorem InRings.call (good : InRings s) (host : Host) (rounds : Nat) (call : Call) :
    InRings (Oversee.call host rounds call s).2 ∧
      call.run host rounds s.chip = (Oversee.call host rounds call s).1.map
        fun _ => ((), (Oversee.call host rounds call s).2.chip) :=
  have follows := call_oversees (P := fun _ => True) host rounds call s good trivial
  ⟨follows.1, follows.2.1⟩

theorem OverseenRun.inRings (run : OverseenRun host variant s) : InRings s := by
  induction run with
  | init => exact start_inRings variant
  | call before call rounds run ih =>
      have after := (ih.call host rounds call).1
      rwa [run] at after

/-- Every run of the chip has a run under watch. -/
theorem Reached.overseen {l : Chip} (reached : Reached host variant l) :
    ∃ s, OverseenRun host variant s ∧ s.chip = l := by
  induction reached with
  | init => exact ⟨_, .init, rfl⟩
  | call before call rounds run ih =>
      obtain ⟨s, overseen, rfl⟩ := ih
      rw [(overseen.inRings.call host rounds call).2] at run
      obtain ⟨result, returned, same⟩ := Option.map_eq_some_iff.mp run
      refine ⟨_, .call overseen call rounds (Prod.ext returned rfl), ?_⟩
      exact (Prod.mk.inj same).2

/-- The positions stay in the rings of the last init block, every advance is one step around,
and every access to a descriptor is inside its ring; so also in a call that does not return. -/
theorem ring_positions_stay (host : Host) (variant : Variant) :
    (∀ l, Reached host variant l → ∃ s, OverseenRun host variant s ∧ s.chip = l) ∧
      ∀ s, OverseenRun host variant s → InRings s ∧ ∀ (call : Call) (rounds : Nat),
        InRings (Oversee.call host rounds call s).2 ∧
          call.run host rounds s.chip = (Oversee.call host rounds call s).1.map
            fun _ => ((), (Oversee.call host rounds call s).2.chip) :=
  ⟨fun _ reached => reached.overseen,
    fun _ run => ⟨run.inRings, fun call rounds => run.inRings.call host rounds call⟩⟩

/-- INIT with rings of 128. -/
theorem ring_positions_stay_init :
    let s := (Oversee.call ⟨some fun _ _ => 0xE000#16, true⟩ 0 (.regsW 0 1)
      (Overseen.start .am7990)).2
    InRings s ∧ (s.rings .rx).exponent = 7 ∧ (s.rings .tx).exponent = 7 := by
  refine ⟨(((ring_positions_stay _ _).2 _ .init).2 _ _).1, ?_, ?_⟩
  · decide +kernel
  · decide +kernel

end Runs

end Ncd15.Lance
