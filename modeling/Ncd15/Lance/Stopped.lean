import Ncd15.Lance.Paths

/-!
# The stopped LANCE

STOP resets the chip, and a chip that has been reset does nothing until INIT or
STRT.  Two entries reach into a stopped chip all the same: a transmit demand
starts it without clearing STOP, and a frame to its own address is received
whether or not the receiver is on.
-/

namespace Ncd15.Lance

open Ncd15.Library

section States

/-- A DMA write or a frame that is sent. -/
def Event.outward : Event → Bool
  | .dmaOut _ _ => true
  | .send _ => true
  | .dmaIn _ => false
  | .intr _ => false

/-- The DMA writes and the frames sent so far. -/
def Chip.outward (l : Chip) : List Event := l.log.filter Event.outward

/-- The state that STOP leaves, INEA aside. -/
structure Halted (l : Chip) : Prop where
  csr0 : l.csr0 = { Csr0.stopped with inea := l.csr0.inea }
  mode : l.mode = 0
  lbBuf : l.lbBuf = []

/-- A chip that is not stopped. -/
structure Alive (l : Chip) : Prop where
  idon : l.idon = false
  stop : l.csr0.stop = false

/-- A chip that is either. -/
structure Orderly (l : Chip) : Prop where
  idon : l.idon = false
  halted : l.csr0.stop = true → Halted l

variable {l l' : Chip} {host : Host}

theorem Alive.orderly (alive : Alive l) : Orderly l :=
  ⟨alive.idon, fun stop => absurd alive.stop (by simp [stop])⟩

theorem Halted.stop (halted : Halted l) : l.csr0.stop = true := by
  rw [halted.csr0]
  rfl

theorem lanceUpdateInterrupts_eq (l : Chip) :
    ∃ state log, lanceUpdateInterrupts l = { l with intrOutState := state, log := log } ∧
      log.filter Event.outward = l.log.filter Event.outward := by
  unfold lanceUpdateInterrupts
  dsimp only
  split
  · split
    · exact ⟨_, _, rfl, rfl⟩
    · exact ⟨_, _, rfl, rfl⟩
  · split
    · exact ⟨_, _, rfl, rfl⟩
    · exact ⟨_, _, rfl, rfl⟩

theorem Alive.updated (alive : Alive l) : Alive (lanceUpdateInterrupts l) := by
  obtain ⟨state, log, updated, -⟩ := lanceUpdateInterrupts_eq l
  rw [updated]
  exact ⟨alive.idon, alive.stop⟩

theorem Alive.of_lines (alive : Alive l) (same : l'.lines = l.lines) : Alive l' := by
  obtain ⟨csr0, -, -, idon⟩ := Lines.mk.inj same
  exact ⟨idon.trans alive.idon, (congrArg Csr0.stop csr0).trans alive.stop⟩

theorem alive_carried : Carried Alive Alive where
  lines same alive := alive.of_lines same
  sending same alive := alive.of_lines same
  polled alive := ⟨alive.idon, alive.stop⟩
  underrun alive := ⟨alive.idon, alive.stop⟩
  babble buf alive := by
    unfold babble
    split
    · exact ⟨alive.idon, alive.stop⟩
    · exact alive
  tint {l} alive := by
    have raised : Alive
        (lanceUpdateInterrupts { l with csr0 := { l.csr0 with tint := true, intr := true } }) :=
      Alive.updated ⟨alive.idon, alive.stop⟩
    exact raised.of_lines rfl
  rint alive := Alive.updated ⟨alive.idon, alive.stop⟩
  miss alive := Alive.updated ⟨alive.idon, alive.stop⟩

theorem lanceReset_halted (l : Chip) : Halted (lanceReset l) ∧ (lanceReset l).idon = false ∧
    (lanceReset l).outward = l.outward := by
  obtain ⟨state, log, updated, outward⟩ := lanceUpdateInterrupts_eq
    { l with
      rap := 0
      csr0 := Csr0.stopped
      csr1 := 0
      csr2 := 0
      csr3 := 0
      mode := 0
      lbBuf := []
      idon := false
      txPollCounter := 19200 }
  unfold lanceReset
  rw [updated]
  exact ⟨⟨rfl, rfl, rfl⟩, rfl, outward⟩

theorem lanceTransmitPoll_halted (halted : Halted l) (rounds : Nat) :
    lanceTransmitPoll host rounds l = some ((), l) := by
  have ring : pollRing host rounds l = some ((), l) := by
    have off : ¬ l.csr0.txon = true := by
      rw [halted.csr0]
      exact Bool.false_ne_true
    exact (Prog.bind_eq_of_run rfl).trans (congrFun (if_neg off) l)
  have loopback : checkLoopback host l = some ((), l) := by
    have empty : ¬ (l.lbBuf ≠ [] ∧ (modeLoop l.mode ∨ l.lbHairpin)) :=
      fun pending => pending.1 halted.lbBuf
    exact (Prog.bind_eq_of_run rfl).trans (congrFun (if_neg empty) l)
  exact (Prog.bind_eq_of_run ring).trans loopback

end States

section Calls

variable {l l' start : Chip} {host : Host}

/-- A halted chip that has written and sent nothing since `start`. -/
structure Rests (start l : Chip) : Prop extends Halted l where
  idon : l.idon = false
  outward : l.outward = start.outward

theorem Rests.orderly (rests : Rests start l) : Orderly l :=
  ⟨rests.idon, fun _ => rests.toHalted⟩

/-- The condition on a call: the stopped chip gets no bare transmit demand, and no
frame to its own address that passes the filter. -/
def Call.Tame (host : Host) (l : Chip) : Call → Prop
  | .regsW offset data =>
      l.csr0.stop = true → offset = 0 → l.rap = 0 → (Csr0.ofHalf data).tdmd = true →
        (Csr0.ofHalf data).stop = true ∨ (Csr0.ofHalf data).strt = true ∨
          (Csr0.ofHalf data).init = true ∧ host.dma.isSome = true
  | .recv buf =>
      l.csr0.stop = true →
        ¬ (60 ≤ buf.length ∧ l.SelfAddressed buf ∧ lanceAddressFilter l buf = true ∧
          host.dma.isSome = true)
  | _ => True

/-- The word that a call writes to CSR0. -/
def Call.csr0Write (l : Chip) : Call → Option Csr0
  | .regsW offset data => if offset = 0 ∧ l.rap = 0 then some (Csr0.ofHalf data) else none
  | _ => none

theorem Rests.poll (rests : Rests start l) (rounds : Nat) :
    Triple (· = l) (lanceTransmitPoll host rounds) fun _ => Rests start := by
  rintro _ rfl result l' run
  rw [lanceTransmitPoll_halted rests.toHalted] at run
  obtain ⟨-, rfl⟩ := Prod.mk.inj (Option.some.inj run)
  exact rests

theorem raiseIdon_alive (l : Chip) : Alive (raiseIdon l) := by
  unfold raiseIdon
  exact Alive.updated ⟨rfl, rfl⟩

theorem lanceInitialize_alive :
    Triple Alive (lanceInitialize host) fun _ => Alive := by
  unfold lanceInitialize
  split
  · exact .pure fun _ => id
  refine .bind (alive_carried.keeps .get) fun l => ?_
  refine .bind (alive_carried.keeps (readWords_keeps lines_blind _ _ _)) fun initBlock => ?_
  refine .bind (alive_carried.keeps (.modify fun _ => rfl)) fun _ => ?_
  exact .modify fun l _ => raiseIdon_alive l

/-- INIT starts a halted chip when the host has wired its memory. -/
theorem lanceInitialize_starts (wired : host.dma.isSome = true) (P : Chip → Prop) :
    Triple P (lanceInitialize host) fun _ => Alive := by
  obtain ⟨dmaIn, dma⟩ := Option.isSome_iff_exists.mp wired
  unfold lanceInitialize
  rw [dma]
  refine .bind (Q := fun _ _ => True) (fun _ _ _ _ _ => trivial) fun l => ?_
  refine .bind (Q := fun _ _ => True) (fun _ _ _ _ _ => trivial) fun initBlock => ?_
  refine .bind (Q := fun _ _ => True) (fun _ _ _ _ _ => trivial) fun _ => ?_
  exact .modify fun l _ => raiseIdon_alive l

theorem startChip_alive (idon : l.idon = false) : Alive (startChip l) :=
  ⟨idon, rfl⟩

theorem demandTransmit_alive (alive : Alive l) : Alive (demandTransmit l) := by
  unfold demandTransmit
  dsimp only
  split
  · exact ⟨alive.idon, alive.stop⟩
  · exact ⟨alive.idon, alive.stop⟩

theorem enableInterrupts_alive (alive : Alive l) (data : Csr0) :
    Alive (enableInterrupts data l) := by
  unfold enableInterrupts
  split
  · exact ⟨alive.idon, alive.stop⟩
  · exact alive

theorem enableInterrupts_rests (rests : Rests start l) (data : Csr0) :
    Rests start (enableInterrupts data l) := by
  unfold enableInterrupts
  split
  · refine ⟨⟨?_, rests.mode, rests.lbBuf⟩, rests.idon, rests.outward⟩
    rw [rests.csr0]
  · exact rests

theorem recomputed_rests (rests : Rests start l) :
    Rests start (lanceUpdateInterrupts { l with csr0 := l.csr0.recomputed }) := by
  obtain ⟨state, log, updated, outward⟩ :=
    lanceUpdateInterrupts_eq { l with csr0 := l.csr0.recomputed }
  rw [updated]
  refine ⟨⟨?_, rests.mode, rests.lbBuf⟩, rests.idon, outward.trans rests.outward⟩
  rw [rests.csr0]
  rfl

theorem clearStatus_rests (rests : Rests start l) (data : Csr0) :
    Rests start { l with csr0 := l.csr0.clearStatus data } := by
  refine ⟨⟨?_, rests.mode, rests.lbBuf⟩, rests.idon, rests.outward⟩
  rw [rests.csr0]
  rfl

/-- A chip that a CSR0 write has started, or not. -/
def Answered (start : Chip) (data : Csr0) (l : Chip) : Prop :=
  Rests start l ∨ Alive l ∧ (data.init = true ∨ data.strt = true)

theorem writeInit_alive (data : Csr0) : Triple Alive (writeInit host data) fun _ => Alive := by
  refine .bind (alive_carried.keeps .get) fun l => ?_
  exact .ite (fun _ => lanceInitialize_alive) fun _ => .pure fun _ => id

theorem writeStrt_alive (rounds : Nat) (data : Csr0) :
    Triple Alive (writeStrt host rounds data) fun _ => Alive := by
  refine .bind (alive_carried.keeps .get) fun l => .ite (fun _ => ?_) fun _ => .pure fun _ => id
  exact .bind (Q := fun _ => Alive) (.modify fun _ alive => startChip_alive alive.idon)
    fun _ => lanceTransmitPoll_carried alive_carried rounds

theorem writeTdmd_alive (rounds : Nat) (data : Csr0) :
    Triple Alive (writeTdmd host rounds data) fun _ => Alive := by
  refine .bind (alive_carried.keeps .get) fun l => .ite (fun _ => ?_) fun _ => .pure fun _ => id
  exact .bind (Q := fun _ => Alive) (.modify fun _ => demandTransmit_alive)
    fun _ => lanceTransmitPoll_carried alive_carried rounds

theorem writeInit_rests (data : Csr0) :
    Triple (Rests start) (writeInit host data) fun _ l =>
      Rests start l ∧ ¬ (data.init = true ∧ host.dma.isSome = true) ∨
        Alive l ∧ data.init = true := by
  refine .get_then fun l rests => .ite (fun begins => ?_) fun idle => .pure ?_
  · cases wired : host.dma.isSome with
    | true =>
        exact (lanceInitialize_starts wired _).weaken fun _ l alive => .inr ⟨alive, begins.1⟩
    | false =>
        unfold lanceInitialize
        rw [Option.isSome_eq_false_iff, Option.isNone_iff_eq_none] at wired
        rw [wired]
        refine .pure ?_
        rintro _ rfl
        exact .inl ⟨rests, by simp⟩
  · rintro l rfl
    have off : l.csr0.init = false := by
      rw [rests.csr0]
      rfl
    exact .inl ⟨rests, fun begins => idle ⟨begins.1, by simp [off]⟩⟩

theorem writeStrt_rests (rounds : Nat) (data : Csr0) :
    Triple (Rests start) (writeStrt host rounds data) fun _ l =>
      Rests start l ∧ ¬ data.strt = true ∨ Alive l ∧ data.strt = true := by
  refine .get_then fun l rests => .ite (fun begins => ?_) fun idle => .pure ?_
  · refine .bind (Q := fun _ => Alive) (.modify ?_) fun _ => ?_
    · rintro _ rfl
      exact startChip_alive rests.idon
    · exact (lanceTransmitPoll_carried alive_carried rounds).weaken
        fun _ l alive => .inr ⟨alive, begins.1⟩
  · rintro l rfl
    have off : l.csr0.strt = false := by
      rw [rests.csr0]
      rfl
    exact .inl ⟨rests, fun begins => idle ⟨begins, by simp [off]⟩⟩

/-- A CSR0 write to a halted chip starts it, or leaves it at rest. -/
theorem writeCsr0_rests (rounds : Nat) {data : Csr0}
    (tame : data.tdmd = true → data.stop = true ∨
      data.strt = true ∨ data.init = true ∧ host.dma.isSome = true) :
    Triple (Rests start) (writeCsr0 host rounds data) fun _ => Answered start data := by
  refine .ite (fun _ => .modify fun l rests => ?_) fun plain => ?_
  · rw [if_neg (not_not.mpr rests.stop)]
    exact .inl rests
  refine .bind (Q := fun _ => Rests start) (.modify fun l rests => ?_) fun _ => ?_
  · exact clearStatus_rests rests data
  refine .bind (writeInit_rests data) fun _ => ?_
  refine .bind (Q := fun _ l => Rests start l ∧ ¬ data.tdmd = true ∨
    Alive l ∧ (data.init = true ∨ data.strt = true)) (.or ?_ ?_) fun _ => ?_
  · refine .assuming (φ := ¬ (data.init = true ∧ host.dma.isSome = true)) (fun _ => And.right)
      fun unwired => ?_
    refine ((writeStrt_rests rounds data).strengthen fun _ => And.left).weaken fun _ l answer => ?_
    rcases answer with ⟨rests, idle⟩ | ⟨alive, begins⟩
    · exact .inl ⟨rests, fun demand => ((tame demand).resolve_left plain).elim idle unwired⟩
    · exact .inr ⟨alive, .inr begins⟩
  · refine .assuming (fun _ => And.right) fun begins => ?_
    exact ((writeStrt_alive rounds data).strengthen fun _ => And.left).weaken
      fun _ l alive => .inr ⟨alive, .inl begins⟩
  refine .bind (Q := fun _ => Answered start data) (.or ?_ ?_) fun _ => ?_
  · refine .assuming (fun _ => And.right) fun noDemand => ?_
    refine .get_then fun l rests => .ite (fun demand => absurd demand.1 noDemand) fun _ => .pure ?_
    rintro _ rfl
    exact .inl rests.1
  · refine .assuming (fun _ => And.right) fun begins => ?_
    exact ((writeTdmd_alive rounds data).strengthen fun _ => And.left).weaken
      fun _ l alive => .inr ⟨alive, begins⟩
  refine .bind (Q := fun _ => Answered start data) (.modify fun l answered => ?_) fun _ =>
    .modify fun l answered => ?_
  · rcases answered with rests | ⟨alive, begins⟩
    · exact .inl (enableInterrupts_rests rests data)
    · exact .inr ⟨enableInterrupts_alive alive data, begins⟩
  · rcases answered with rests | ⟨alive, begins⟩
    · exact .inl (recomputed_rests rests)
    · exact .inr ⟨Alive.updated ⟨alive.idon, alive.stop⟩, begins⟩

theorem writeCsr0_alive (rounds : Nat) {data : Csr0} (plain : data.stop = false) :
    Triple Alive (writeCsr0 host rounds data) fun _ => Alive := by
  refine .ite (fun stop => absurd stop (by simp [plain])) fun _ => ?_
  refine .bind (Q := fun _ => Alive) (.modify fun l alive => ⟨alive.idon, alive.stop⟩) fun _ => ?_
  refine .bind (writeInit_alive data) fun _ => .bind (writeStrt_alive rounds data) fun _ => ?_
  refine .bind (writeTdmd_alive rounds data) fun _ => ?_
  refine .bind (Q := fun _ => Alive) (.modify fun l alive => ?_) fun _ => .modify fun l alive => ?_
  · exact enableInterrupts_alive alive data
  · exact Alive.updated ⟨alive.idon, alive.stop⟩

theorem writeCsr0_stop (rounds : Nat) {data : Csr0} (stop : data.stop = true) :
    Triple Orderly (writeCsr0 host rounds data) fun _ l =>
      Orderly l ∧ Halted l := by
  refine .ite (fun _ => .modify fun l orderly => ?_) fun plain => absurd stop plain
  split
  case isTrue =>
    obtain ⟨halted, idon, -⟩ := lanceReset_halted l
    exact ⟨⟨idon, fun _ => halted⟩, halted⟩
  case isFalse stopped => exact ⟨orderly, orderly.halted (not_not.mp stopped)⟩

/-- The two things that a CSR0 write can ask of a halted chip. -/
def Call.Starts (l : Chip) (call : Call) : Prop :=
  ∃ data, call.csr0Write l = some data ∧ (data.init = true ∨ data.strt = true)

theorem csr0Write_regsW {offset : Int} {data : Half} (rdp : offset = 0) (rap : l.rap = 0) :
    (Call.regsW offset data).csr0Write l = some (Csr0.ofHalf data) :=
  if_pos ⟨rdp, rap⟩

theorem Rests.set (rests : Rests start l) (csr1 csr2 csr3 : Half) (rap : BitVec 2) :
    Rests start { l with rap, csr1, csr2, csr3 } :=
  ⟨⟨rests.csr0, rests.mode, rests.lbBuf⟩, rests.idon, rests.outward⟩

theorem lanceRegsW_rests (rounds : Nat) (offset : Int) (data : Half)
    (tame : (Call.regsW offset data).Tame host l) (rests : Rests start l) :
    Triple (· = l) (lanceRegsW host rounds offset data) fun _ l' =>
      Rests start l' ∨ Alive l' ∧ (Call.regsW offset data).Starts l := by
  refine .get_then ?_
  rintro l rfl
  refine .ite (fun _ => .modify ?_) fun rdp => ?_
  · rintro l rfl
    exact .inl (rests.set _ _ _ _)
  refine .ite (fun csr0 => ?_) fun other => .ite (fun _ => .pure ?_) fun _ => ?_
  · have answered : Triple (Rests start) (writeCsr0 host rounds (Csr0.ofHalf data))
        fun _ => Answered start (Csr0.ofHalf data) :=
      writeCsr0_rests rounds (tame rests.stop (not_not.mp rdp) csr0)
    refine (answered.strengthen ?_).weaken fun _ l' answer => ?_
    · rintro _ rfl
      exact rests
    · rcases answer with rests' | ⟨alive, begins⟩
      · exact .inl rests'
      · exact .inr ⟨alive, _, csr0Write_regsW (not_not.mp rdp) csr0, begins⟩
  · rintro l rfl
    exact .inl rests
  · refine .ite (fun _ => .modify ?_) fun _ => .ite (fun _ => .modify ?_) fun _ => .modify ?_
    · rintro l rfl
      exact .inl (rests.set _ _ _ _)
    · rintro l rfl
      exact .inl (rests.set _ _ _ _)
    · rintro l rfl
      exact .inl (rests.set _ _ _ _)

theorem lanceTick_rests (rounds : Nat) (cycles : Int) :
    Triple (Rests start) (lanceTick host rounds cycles) fun _ => Rests start := by
  refine .ite (fun _ => .pure fun _ => id) fun _ => ?_
  refine .bind (Q := fun _ => Rests start) (.modify fun l rests => ?_) fun _ => ?_
  · rw [tickInit, if_pos (by simp [rests.idon])]
    exact rests
  refine .get_then fun l rests => .ite (fun _ => .ite (fun _ => ?_) fun _ => .modify ?_)
    fun _ => .pure ?_
  · refine .bind (Q := fun _ => Rests start) (.modify ?_) fun _ => ?_
    · rintro l rfl
      exact ⟨⟨rests.csr0, rests.mode, rests.lbBuf⟩, rests.idon, rests.outward⟩
    · exact fun l rests result l' run => rests.poll rounds l rfl result l' run
  · rintro l rfl
    exact ⟨⟨rests.csr0, rests.mode, rests.lbBuf⟩, rests.idon, rests.outward⟩
  · rintro l rfl
    exact rests

/-- A halted chip discards every frame but those to itself that pass the filter. -/
theorem lanceReceive_halted {buf : List Byte} (halted : Halted l) (long : ¬ buf.length < 60)
    (tame : (Call.recv buf).Tame host l) :
    lanceReceive host buf l = some (-1, l) := by
  have noLoopback : ¬ (modeLoop l.mode && modeIntl l.mode) = true := by
    rw [halted.mode]
    decide
  have off : ¬ l.csr0.rxon = true := by
    rw [halted.csr0]
    exact Bool.false_ne_true
  refine (Prog.bind_eq_of_run rfl).trans ?_
  dsimp only
  by_cases self : l.SelfAddressed buf
  · rw [if_neg (by simp [self])]
    by_cases passes : lanceAddressFilter l buf = true
    · rw [if_neg (by simp [passes])]
      cases dma : host.dma with
      | none => rfl
      | some dmaIn =>
          exact absurd ⟨Nat.not_lt.mp long, self, passes, by simp [dma]⟩ (tame halted.stop)
    · rw [if_pos passes]
      rfl
  · rw [if_pos ⟨noLoopback, self, off⟩]
    rfl

theorem lanceRecv_rests (buf : List Byte) (tame : (Call.recv buf).Tame host l)
    (rests : Rests start l) :
    Triple (· = l) (lanceRecv host buf) fun _ => Rests start := by
  refine .get_then ?_
  rintro l rfl
  refine .ite (fun _ => .pure ?_) fun long => .ite (fun _ => .pure ?_) fun _ => ?_
  · rintro l rfl
    exact rests
  · rintro l rfl
    exact rests
  · rintro _ rfl result l' run
    have discarded := lanceReceive_halted rests.toHalted long tame
    rw [Prog.bind_eq_of_run discarded] at run
    obtain ⟨-, rfl⟩ := Prod.mk.inj (Option.some.inj run)
    exact rests

theorem call_stop {call : Call} {data : Csr0} {rounds : Nat} (orderly : Orderly l)
    (writes : call.csr0Write l = some data) (stop : data.stop = true)
    (run : call.run host rounds l = some ((), l')) : Orderly l' ∧ Halted l' := by
  cases call with
  | regsW offset word =>
      rw [Call.csr0Write, Option.ite_none_right_eq_some] at writes
      obtain ⟨⟨rdp, rap⟩, same⟩ := writes
      obtain rfl := Option.some.inj same
      have write : lanceRegsW host rounds offset word l =
          writeCsr0 host rounds (Csr0.ofHalf word) l := by
        refine (Prog.bind_eq_of_run rfl).trans ?_
        rw [if_neg (not_not.mpr rdp), if_pos rap]
      rw [Call.run, write] at run
      exact writeCsr0_stop rounds stop l orderly () l' run
  | _ => simp [Call.csr0Write] at writes

theorem call_rests {call : Call} {rounds : Nat} (tame : call.Tame host l) (rests : Rests start l)
    (run : call.run host rounds l = some ((), l')) :
    Rests start l' ∨ Alive l' ∧ call.Starts l := by
  cases call with
  | regsR offset =>
      obtain ⟨-, rfl⟩ := Prod.mk.inj (Option.some.inj run)
      exact .inl rests
  | regsW offset data => exact lanceRegsW_rests rounds offset data tame rests l rfl () l' run
  | reset =>
      obtain ⟨-, rfl⟩ := Prod.mk.inj (Option.some.inj run)
      obtain ⟨halted, idon, outward⟩ := lanceReset_halted l
      exact .inl ⟨halted, idon, outward.trans rests.outward⟩
  | tick cycles => exact .inl (lanceTick_rests rounds cycles l rests () l' run)
  | recv buf =>
      obtain ⟨result, l'', received, returns⟩ := Prog.bind_eq_some run
      obtain ⟨-, rfl⟩ := Prod.mk.inj (Option.some.inj returns)
      exact .inl (lanceRecv_rests buf tame rests l rfl result l'' received)

theorem tickInit_alive (alive : Alive l) (cycles : Int) : Alive (tickInit cycles l) := by
  rw [tickInit, if_pos (by simp [alive.idon])]
  exact alive

theorem lanceTick_alive (rounds : Nat) (cycles : Int) :
    Triple Alive (lanceTick host rounds cycles) fun _ => Alive := by
  refine .ite (fun _ => .pure fun _ => id) fun _ => ?_
  refine .bind (Q := fun _ => Alive) (.modify fun l alive => tickInit_alive alive cycles)
    fun _ => ?_
  refine .bind (alive_carried.keeps .get) fun l => .ite (fun _ => .ite (fun _ => ?_) fun _ => ?_)
    fun _ => .pure fun _ => id
  · exact .bind (alive_carried.keeps (.modify fun _ => rfl))
      fun _ => lanceTransmitPoll_carried alive_carried rounds
  · exact alive_carried.keeps (.modify fun _ => rfl)

theorem lanceRegsW_alive (rounds : Nat) (offset : Int) (data : Half) :
    Triple Alive (lanceRegsW host rounds offset data) fun _ => Orderly := by
  refine .get_then fun l alive => .ite (fun _ => .modify ?_) fun _ => ?_
  · rintro l rfl
    exact Alive.orderly ⟨alive.idon, alive.stop⟩
  refine .ite (fun _ => ?_) fun _ => .ite (fun _ => .pure ?_) fun running => ?_
  · cases stop : (Csr0.ofHalf data).stop with
    | true =>
        refine ((writeCsr0_stop rounds stop).strengthen ?_).weaken fun _ _ => And.left
        rintro l rfl
        exact alive.orderly
    | false =>
        refine ((writeCsr0_alive rounds stop).strengthen ?_).weaken fun _ _ => Alive.orderly
        rintro l rfl
        exact alive
  · rintro l rfl
    exact alive.orderly
  · exact absurd (not_not.mp running) (by simp [alive.stop])

theorem call_alive {call : Call} {rounds : Nat} (alive : Alive l)
    (run : call.run host rounds l = some ((), l')) : Orderly l' := by
  cases call with
  | regsR offset =>
      obtain ⟨-, rfl⟩ := Prod.mk.inj (Option.some.inj run)
      exact alive.orderly
  | regsW offset data => exact lanceRegsW_alive rounds offset data l alive () l' run
  | reset =>
      obtain ⟨-, rfl⟩ := Prod.mk.inj (Option.some.inj run)
      obtain ⟨halted, idon, -⟩ := lanceReset_halted l
      exact ⟨idon, fun _ => halted⟩
  | tick cycles => exact (lanceTick_alive rounds cycles l alive () l' run).orderly
  | recv buf =>
      obtain ⟨result, l'', received, returns⟩ := Prog.bind_eq_some run
      obtain ⟨-, rfl⟩ := Prod.mk.inj (Option.some.inj returns)
      exact (lanceRecv_carried alive_carried buf l alive result l'' received).orderly

end Calls

section Runs

/-- The chip between two calls that all meet the condition, from `lance_init` on. -/
inductive TameRun (host : Host) (variant : Variant) : Chip → Prop
  | init : TameRun host variant (lanceInit variant)
  | call {l l' : Chip} (before : TameRun host variant l) (call : Call) (rounds : Nat)
      (tame : call.Tame host l) (run : call.run host rounds l = some ((), l')) :
      TameRun host variant l'

variable {host : Host} {variant : Variant} {l l' : Chip}

theorem orderly_of_tameRun (run : TameRun host variant l) : Orderly l := by
  induction run with
  | init =>
      obtain ⟨halted, idon, -⟩ := lanceReset_halted (lanceBlank variant)
      exact ⟨idon, fun _ => halted⟩
  | @call l l' _ call rounds tame run ih =>
      cases stop : l.csr0.stop with
      | true =>
          have rests : Rests l l := ⟨ih.halted stop, ih.idon, rfl⟩
          rcases call_rests tame rests run with rests' | ⟨alive, -⟩
          · exact rests'.orderly
          · exact alive.orderly
      | false => exact call_alive ⟨ih.idon, stop⟩ run

/-- The bits of a chip that is stopped. -/
structure Stopped (l : Chip) : Prop where
  stop : l.csr0.stop = true
  strt : l.csr0.strt = false
  txon : l.csr0.txon = false
  rxon : l.csr0.rxon = false

theorem Halted.stopped (halted : Halted l) : Stopped l := by
  constructor <;> rw [halted.csr0] <;> rfl

/-- The status bits of CSR0. -/
def Csr0.status (c : Csr0) : List Bool :=
  [c.intr, c.idon, c.tint, c.rint, c.merr, c.miss, c.cerr, c.babl, c.err]

theorem Halted.status (halted : Halted l) : l.csr0.status = List.replicate 9 false := by
  rw [halted.csr0]
  rfl

/-- What a call does to a stopped chip that it does not start, and what a CSR0
write with STOP does. -/
structure StopHolds (call : Call) (l l' : Chip) : Prop where
  quiet : l.csr0.stop = true → ¬ call.Starts l →
    l'.csr0.stop = true ∧ l'.outward = l.outward ∧ l'.csr0.status = l.csr0.status
  stops : ∀ data, call.csr0Write l = some data → data.stop = true → Stopped l'

/-- In every run whose calls meet the condition a chip with STOP set is stopped,
stays so and does nothing until INIT or STRT, and a CSR0 write with STOP stops it. -/
theorem stopHolds_of_tameRun (run : TameRun host variant l) :
    (l.csr0.stop = true → Stopped l) ∧
      ∀ call rounds l', Call.Tame host l call → call.run host rounds l = some ((), l') →
        StopHolds call l l' := by
  have orderly := orderly_of_tameRun run
  refine ⟨fun stop => (orderly.halted stop).stopped, fun call rounds l' tame step => ?_⟩
  constructor
  case quiet =>
    intro stop noStart
    have rests : Rests l l := ⟨orderly.halted stop, orderly.idon, rfl⟩
    rcases call_rests tame rests step with rests' | ⟨-, starts⟩
    · exact ⟨rests'.stop, rests'.outward, rests'.status.trans rests.status.symm⟩
    · exact absurd starts noStart
  case stops =>
    intro data writes stop
    exact (call_stop orderly writes stop step).2.stopped

theorem stopHolds_of_tameRun_tick :
    ∃ l', (Call.tick 10000).run zeroHost 1 (lanceInit .am79c90) = some ((), l') ∧
      StopHolds (.tick 10000) (lanceInit .am79c90) l' := by
  have returns : ((Call.tick 10000).run zeroHost 1 (lanceInit .am79c90)).isSome = true := by
    decide +kernel
  obtain ⟨⟨⟨⟩, l'⟩, step⟩ := Option.isSome_iff_exists.mp returns
  exact ⟨l', step, (stopHolds_of_tameRun .init).2 _ 1 l' trivial step⟩

/-- A transmit demand starts a stopped chip and leaves STOP set, and a frame to the
chip's own address sets MISS in it. -/
theorem demand_starts_stopped_chip :
    (∃ l, Reached zeroHost .am79c90 l ∧ l.csr0.stop = true ∧ l.csr0.strt = true ∧
        l.csr0.rxon = true) ∧
      ∃ l', (lanceInit .am79c90).csr0.stop = true ∧
        (Call.recv (List.replicate 64 0)).run zeroHost 1 (lanceInit .am79c90) = some ((), l') ∧
        l'.csr0.status ≠ (lanceInit .am79c90).csr0.status := by
  constructor
  · have demanded : ((Call.regsW 0 0x0008#16).run zeroHost 1 (lanceInit .am79c90)).map
        (fun result => (result.2.csr0.stop, result.2.csr0.strt, result.2.csr0.rxon)) =
          some (true, true, true) := by
      decide +kernel
    obtain ⟨⟨⟨⟩, l⟩, run, bits⟩ := Option.map_eq_some_iff.mp demanded
    simp only [Prod.mk.injEq] at bits
    exact ⟨l, Reached.init.call _ 1 run, bits⟩
  · have received : ((Call.recv (List.replicate 64 0)).run zeroHost 1 (lanceInit .am79c90)).map
        (fun result => result.2.csr0.miss) = some true := by
      decide +kernel
    obtain ⟨⟨⟨⟩, l'⟩, run, missed⟩ := Option.map_eq_some_iff.mp received
    refine ⟨l', rfl, run, fun same => ?_⟩
    have miss := congrArg (fun bits => bits.getD 5 false) same
    rw [show l'.csr0.status.getD 5 false = l'.csr0.miss from rfl, missed] at miss
    exact Bool.false_ne_true miss.symm

end Runs

end Ncd15.Lance
