import Ncd15.Emulator.Duart

/-!
# What a DUART access touches

The register number is five bits of the offset, and the register file has sixteen
entries.  Up to register 15 an access stays in the arrays and changes the fields that
its register stands for; the upper half of the window leads past the end of `regs`.
-/

namespace Ncd15.Emulator

open Ncd15.Library

section Fields

inductive ChannelField
  | sr
  | mrPtr
  | rxQueue (i : Nat)
  | rxHead
  | rxTail
  | sent
  deriving DecidableEq

def ChannelField.Same (c c' : Channel) : ChannelField → Prop
  | .sr => c'.sr = c.sr
  | .mrPtr => c'.mrPtr = c.mrPtr
  | .rxQueue i => c'.rxQueue[i]? = c.rxQueue[i]?
  | .rxHead => c'.rxHead = c.rxHead
  | .rxTail => c'.rxTail = c.rxTail
  | .sent => c'.sent = c.sent

inductive Line
  | a
  | b
  deriving DecidableEq

def Duart.channel (d : Duart) : Line → Channel
  | .a => d.a
  | .b => d.b

/-- The fields of `struct duart`, the entries of its arrays apart, and what a channel has
printed. -/
inductive DuartField
  | regs (i : Nat)
  | channel (line : Line) (field : ChannelField)
  | logTx
  | nv
  | opr
  deriving DecidableEq

def DuartField.Same (d d' : Duart) : DuartField → Prop
  | .regs i => d'.regs[i]? = d.regs[i]?
  | .channel line field => field.Same (d.channel line) (d'.channel line)
  | .logTx => d'.logTx = d.logTx
  | .nv => d'.nv = d.nv
  | .opr => d'.opr = d.opr

/-- Every field that is not listed is left alone. -/
def Channel.OnlyChanges (fields : List ChannelField) (c c' : Channel) : Prop :=
  ∀ field, field ∉ fields → field.Same c c'

def Duart.OnlyChanges (fields : List DuartField) (d d' : Duart) : Prop :=
  ∀ field, field ∉ fields → field.Same d d'

/-- What a read of a register changes: the status registers refresh `RxRDY`, and a read of
a holding register takes a byte from its queue. -/
def readFields : Nat → List DuartField
  | 0x01 => [.channel .a .sr]
  | 0x03 => [.channel .a .rxHead]
  | 0x09 => [.channel .b .sr]
  | 0x0B => [.channel .b .rxHead]
  | _ => []

/-- What the registers stand for in a write: a mode register for the entry that the pointer
selects and for the pointer, a command register for the pointer, a holding register for the
transmitter, and the output port for the EEPROM behind it too. -/
def writeFields (d : Duart) : Nat → List DuartField
  | 0x00 => [.regs (0x00 + d.a.mrPtr), .channel .a .mrPtr]
  | 0x02 => [.channel .a .mrPtr]
  | 0x03 => [.channel .a .sent]
  | 0x08 => [.regs (0x08 + d.b.mrPtr), .channel .b .mrPtr]
  | 0x0A => [.channel .b .mrPtr]
  | 0x0B => [.channel .b .sent]
  | 0x0F => [.opr, .nv, .regs 0x0F]
  | reg => [.regs reg]

end Fields

section Accesses

/-- A guest access within the window of the device, or a byte of input. -/
inductive DuartAccess
  | read (offset : Fin 0x80)
  | write (offset : Fin 0x80) (value : Word)
  | feed (line : Line) (byte : BitVec 8)

namespace DuartAccess

def run : DuartAccess → Prog Duart Unit
  | .read offset => do
      let _ ← duartRead (BitVec.ofNat 32 offset)
      pure ()
  | .write offset value => duartWrite (BitVec.ofNat 32 offset) value
  | .feed .a byte => Duart.onA (Channel.feedInput byte)
  | .feed .b byte => Duart.onB (Channel.feedInput byte)

def fields (d : Duart) : DuartAccess → List DuartField
  | .read offset => readFields (duartReg (BitVec.ofNat 32 offset))
  | .write offset _ => writeFields d (duartReg (BitVec.ofNat 32 offset))
  | .feed line _ =>
      [.channel line (.rxQueue (d.channel line).rxTail), .channel line .rxTail]

/-- The lower half of the window, with registers 0 to 15. -/
def InFile : DuartAccess → Prop
  | .read offset => offset.val < 0x40
  | .write offset _ => offset.val < 0x40
  | .feed _ _ => True

end DuartAccess

/-- Every access of a run stays in the arrays and changes what its register stands for. -/
def StaysInArrays : Duart → List DuartAccess → Prop
  | _, [] => True
  | d, access :: rest =>
      ∃ d', access.run d = some ((), d') ∧ d.OnlyChanges (access.fields d) d' ∧
        StaysInArrays d' rest

end Accesses

section Channels

/-- The pointer selects one of the two mode registers, the ends of the queue are indices
of it, and the transmitter is always ready. -/
structure Channel.Sound (c : Channel) : Prop where
  mrPtr : c.mrPtr ≤ 1
  rxHead : c.rxHead < 16
  rxTail : c.rxTail < 16
  idle : c.sr ||| txIdle = c.sr

theorem Channel.new_sound : Channel.new.Sound := by
  constructor <;> decide

variable {c : Channel}

theorem Channel.Sound.readStatus (sound : c.Sound) : c.readStatus.2.Sound := by
  refine ⟨sound.mrPtr, sound.rxHead, sound.rxTail, ?_⟩
  have idle := sound.idle
  simp only [Channel.readStatus, txIdle] at idle ⊢
  split
  · rw [BitVec.or_assoc, BitVec.or_comm 0x01#8, ← BitVec.or_assoc, idle]
  · rw [← idle, BitVec.and_or_distrib_right, BitVec.or_assoc]
    rfl

theorem Channel.readStatus_only (c : Channel) : c.OnlyChanges [.sr] c.readStatus.2 := by
  intro field other
  cases field with
  | sr => exact absurd List.mem_cons_self other
  | _ => rfl

theorem Channel.Sound.transmit (sound : c.Sound) (logTx : Bool) (byte : BitVec 8) :
    (c.transmit logTx byte).Sound :=
  ⟨sound.mrPtr, sound.rxHead, sound.rxTail, by
    rw [Channel.transmit, BitVec.or_assoc, BitVec.or_self]⟩

theorem Channel.Sound.transmit_only (sound : c.Sound) (logTx : Bool) (byte : BitVec 8) :
    c.OnlyChanges [.sent] (c.transmit logTx byte) := by
  intro field other
  cases field with
  | sr => exact sound.idle
  | sent => exact absurd List.mem_cons_self other
  | _ => rfl

theorem Channel.Sound.command (sound : c.Sound) (v : BitVec 8) : (c.command v).Sound := by
  unfold Channel.command
  split
  · exact ⟨Nat.zero_le 1, sound.rxHead, sound.rxTail, sound.idle⟩
  · exact sound

theorem Channel.command_only (c : Channel) (v : BitVec 8) :
    c.OnlyChanges [.mrPtr] (c.command v) := by
  intro field other
  unfold Channel.command
  split
  · cases field with
    | mrPtr => exact absurd List.mem_cons_self other
    | _ => rfl
  · cases field <;> rfl

/-- The write of a mode register moves the pointer on to the second one. -/
theorem Channel.Sound.second (sound : c.Sound) : { c with mrPtr := 1 }.Sound :=
  ⟨Nat.le_refl 1, sound.rxHead, sound.rxTail, sound.idle⟩

theorem Channel.second_only (c : Channel) : c.OnlyChanges [.mrPtr] { c with mrPtr := 1 } := by
  intro field other
  cases field with
  | mrPtr => exact absurd List.mem_cons_self other
  | _ => rfl

theorem Channel.Sound.rxPop (sound : c.Sound) :
    ∃ byte c', Channel.rxPop c = some (byte, c') ∧ c'.Sound ∧ c.OnlyChanges [.rxHead] c' := by
  cases has : c.rxHas with
  | false =>
      refine ⟨0#8, c, ?_, sound, fun field _ => by cases field <;> rfl⟩
      rw [Channel.rxPop, Prog.get_bind_run, has]
      rfl
  | true =>
      have inside := sound.rxHead
      refine ⟨c.rxQueue[c.rxHead], { c with rxHead := (c.rxHead + 1) % 16 }, ?_,
        ⟨sound.mrPtr, Nat.mod_lt _ (by decide), sound.rxTail, sound.idle⟩, fun field other => ?_⟩
      · have entry : (StateT.lift c.rxQueue[c.rxHead]? : Prog Channel (BitVec 8)) c =
            some (c.rxQueue[c.rxHead], c) := by
          rw [Vector.getElem?_eq_getElem inside]
          rfl
        rw [Channel.rxPop, Prog.get_bind_run, has, if_pos rfl, Prog.bind_eq_of_run entry]
        rfl
      · cases field with
        | rxHead => exact absurd List.mem_cons_self other
        | _ => rfl

theorem Channel.Sound.feedInput (sound : c.Sound) (byte : BitVec 8) :
    ∃ c', Channel.feedInput byte c = some ((), c') ∧ c'.Sound ∧
      c.OnlyChanges [.rxQueue c.rxTail, .rxTail] c' := by
  rw [Channel.feedInput, Prog.get_bind_run]
  by_cases full : (c.rxTail + 1) % 16 = c.rxHead
  · rw [if_pos full]
    exact ⟨c, rfl, sound, fun field _ => by cases field <;> rfl⟩
  · rw [if_neg full, dif_pos sound.rxTail]
    refine ⟨_, rfl, ⟨sound.mrPtr, sound.rxHead, Nat.mod_lt _ (by decide), sound.idle⟩,
      fun field other => ?_⟩
    cases field with
    | rxQueue i =>
        exact Vector.getElem?_set_ne sound.rxTail fun same => other (by rw [same]; simp)
    | rxTail => exact absurd (by simp) other
    | _ => rfl

end Channels

section Device

structure Duart.Sound (d : Duart) : Prop where
  a : d.a.Sound
  b : d.b.Sound

/-- A new device, with whatever image has been loaded into the EEPROM. -/
theorem duartNew_sound (nv : Nvram) : { duartNew with nv := nv }.Sound :=
  ⟨Channel.new_sound, Channel.new_sound⟩

variable {d d' d'' : Duart} {c : Channel} {fields fields' : List DuartField} {α : Type}

theorem Duart.onlyChanges_refl (d : Duart) : d.OnlyChanges fields d := by
  intro field _
  cases field with
  | channel line field => cases field <;> rfl
  | _ => rfl

theorem Duart.onlyChanges_regs (d : Duart) {reg : Nat} (v : BitVec 8)
    (inside : reg < duartNregs) :
    d.OnlyChanges [.regs reg] { d with regs := d.regs.set reg v inside } := by
  intro field other
  cases field with
  | regs i => exact Vector.getElem?_set_ne inside fun same => other (by rw [same]; simp)
  | channel line field => cases line <;> cases field <;> rfl
  | _ => rfl

theorem Duart.onlyChanges_opr (d : Duart) (opr : BitVec 8) (nv : Nvram) :
    d.OnlyChanges [.opr, .nv] { d with opr := opr, nv := nv } := by
  intro field other
  cases field with
  | channel line field => cases line <;> cases field <;> rfl
  | opr => exact absurd (by simp) other
  | nv => exact absurd (by simp) other
  | _ => rfl

theorem Duart.onlyChanges_a {changed : List ChannelField} (only : d.a.OnlyChanges changed c) :
    d.OnlyChanges (changed.map (.channel .a)) { d with a := c } := by
  intro field other
  cases field with
  | channel line field =>
      cases line with
      | a => exact only field fun mem => other (List.mem_map_of_mem mem)
      | b => cases field <;> rfl
  | _ => rfl

theorem Duart.onlyChanges_b {changed : List ChannelField} (only : d.b.OnlyChanges changed c) :
    d.OnlyChanges (changed.map (.channel .b)) { d with b := c } := by
  intro field other
  cases field with
  | channel line field =>
      cases line with
      | a => cases field <;> rfl
      | b => exact only field fun mem => other (List.mem_map_of_mem mem)
  | _ => rfl

theorem ChannelField.Same.trans {c c' c'' : Channel} {field : ChannelField}
    (first : field.Same c c') (second : field.Same c' c'') : field.Same c c'' := by
  cases field <;> exact Eq.trans second first

theorem Duart.OnlyChanges.trans (first : d.OnlyChanges fields d')
    (second : d'.OnlyChanges fields' d'') : d.OnlyChanges (fields ++ fields') d'' := by
  intro field other
  rw [List.mem_append, not_or] at other
  have before := first field other.1
  have after := second field other.2
  cases field with
  | channel line field => exact ChannelField.Same.trans before after
  | _ => exact Eq.trans after before

/-- `f` comes to its end, changes no field but those listed and leaves a sound device. -/
def Duart.Stays (d : Duart) (fields : List DuartField) (f : Prog Duart α) : Prop :=
  ∃ result d', f d = some (result, d') ∧ d.OnlyChanges fields d' ∧ d'.Sound

theorem Duart.Stays.get {f : Duart → Prog Duart α} (stays : d.Stays fields (f d)) :
    d.Stays fields (MonadState.get >>= f) := stays

theorem Duart.Stays.bind {β : Type} {f : Prog Duart α} {g : α → Prog Duart β}
    (first : d.Stays fields f)
    (second : ∀ result d', f d = some (result, d') → d'.Sound → d'.Stays fields' (g result)) :
    d.Stays (fields ++ fields') (f >>= g) := by
  obtain ⟨result, d', run, only, kept⟩ := first
  obtain ⟨result', d'', run', only', kept'⟩ := second result d' run kept
  exact ⟨result', d'', by rw [Prog.bind_eq_of_run run, run'], only.trans only', kept'⟩

theorem Duart.Stays.map {β : Type} {f : Prog Duart α} (stays : d.Stays fields f) (g : α → β) :
    d.Stays fields (do let result ← f; pure (g result)) := by
  obtain ⟨result, d', run, rest⟩ := stays
  exact ⟨g result, d', by rw [Prog.bind_eq_of_run run]; rfl, rest⟩

theorem modify_stays {change : Duart → Duart} (kept : (change d).Sound)
    (only : d.OnlyChanges fields (change d)) : d.Stays fields (modify change) :=
  ⟨(), change d, rfl, only, kept⟩

theorem getReg_run {reg : Nat} (inside : reg < duartNregs) :
    Duart.getReg reg d = some (d.regs[reg], d) := by
  rw [Duart.getReg, Prog.get_bind_run, Vector.getElem?_eq_getElem inside]
  rfl

theorem getReg_outside {reg : Nat} (outside : duartNregs ≤ reg) : Duart.getReg reg d = none := by
  rw [Duart.getReg, Prog.get_bind_run, Vector.getElem?_eq_none outside]
  rfl

theorem setReg_run {reg : Nat} (v : BitVec 8) (inside : reg < duartNregs) :
    Duart.setReg reg v d = some ((), { d with regs := d.regs.set reg v inside }) := by
  rw [Duart.setReg, Prog.get_bind_run, dif_pos inside]
  rfl

theorem setReg_outside {reg : Nat} (v : BitVec 8) (outside : duartNregs ≤ reg) :
    Duart.setReg reg v d = none := by
  rw [Duart.setReg, Prog.get_bind_run, dif_neg (Nat.not_lt.mpr outside)]
  rfl

theorem onA_run {f : Prog Channel α} {result : α} (run : f d.a = some (result, c)) :
    Duart.onA f d = some (result, { d with a := c }) := by
  rw [Duart.onA, run]
  rfl

theorem onB_run {f : Prog Channel α} {result : α} (run : f d.b = some (result, c)) :
    Duart.onB f d = some (result, { d with b := c }) := by
  rw [Duart.onB, run]
  rfl

/-- A register that is only read. -/
theorem getReg_stays (sound : d.Sound) {reg : Nat} (inside : reg < duartNregs) :
    d.Stays fields (Duart.getReg reg) :=
  ⟨d.regs[reg], d, getReg_run inside, d.onlyChanges_refl, sound⟩

theorem setReg_stays (sound : d.Sound) {reg : Nat} (v : BitVec 8) (inside : reg < duartNregs) :
    d.Stays [.regs reg] (Duart.setReg reg v) :=
  ⟨(), _, setReg_run v inside, d.onlyChanges_regs v inside, ⟨sound.a, sound.b⟩⟩

theorem onA_stays (sound : d.Sound) {f : Prog Channel α} {changed : List ChannelField}
    (ends : ∃ result c', f d.a = some (result, c') ∧ c'.Sound ∧ d.a.OnlyChanges changed c') :
    d.Stays (changed.map (.channel .a)) (Duart.onA f) := by
  obtain ⟨result, c', run, kept, only⟩ := ends
  exact ⟨result, _, onA_run run, Duart.onlyChanges_a only, ⟨kept, sound.b⟩⟩

theorem onB_stays (sound : d.Sound) {f : Prog Channel α} {changed : List ChannelField}
    (ends : ∃ result c', f d.b = some (result, c') ∧ c'.Sound ∧ d.b.OnlyChanges changed c') :
    d.Stays (changed.map (.channel .b)) (Duart.onB f) := by
  obtain ⟨result, c', run, kept, only⟩ := ends
  exact ⟨result, _, onB_run run, Duart.onlyChanges_b only, ⟨sound.a, kept⟩⟩

end Device

section Registers

variable {d : Duart} {offset : Word} {fields : List DuartField} {α : Type}

theorem duartRead_stays (sound : d.Sound) (inside : duartReg offset < duartNregs) :
    d.Stays (readFields (duartReg offset)) (duartRead offset) := by
  have ptrA := sound.a.mrPtr
  have ptrB := sound.b.mrPtr
  refine .get ?_
  dsimp only
  split
  case h_1 => exact .map (getReg_stays sound (by unfold duartNregs; omega)) _
  case h_2 reg =>
    rw [reg]
    exact .map (onA_stays sound ⟨_, _, rfl, sound.a.readStatus, d.a.readStatus_only⟩) _
  case h_3 reg =>
    rw [reg]
    exact .map (onA_stays sound sound.a.rxPop) _
  case h_4 => exact .map (getReg_stays sound (by unfold duartNregs; omega)) _
  case h_5 reg =>
    rw [reg]
    exact .map (onB_stays sound ⟨_, _, rfl, sound.b.readStatus, d.b.readStatus_only⟩) _
  case h_6 reg =>
    rw [reg]
    exact .map (onB_stays sound sound.b.rxPop) _
  case h_7 => exact .map (getReg_stays sound (by decide)) _
  case h_8 => exact .map (getReg_stays sound inside) _

theorem pure_stays (sound : d.Sound) (result : α) : d.Stays fields (pure result) :=
  ⟨result, d, rfl, d.onlyChanges_refl, sound⟩

theorem writeFields_other {reg : Nat} (d : Duart) (other : reg ∉ [0, 2, 3, 8, 10, 11, 15]) :
    writeFields d reg = [.regs reg] := by
  unfold writeFields
  split <;> first | rfl | exact absurd (by decide) other

theorem duartWrite_stays (sound : d.Sound) (value : Word)
    (inside : duartReg offset < duartNregs) :
    d.Stays (writeFields d (duartReg offset)) (duartWrite offset value) := by
  have ptrA := sound.a.mrPtr
  have ptrB := sound.b.mrPtr
  refine .get ?_
  dsimp only
  split
  case h_1 reg =>
    rw [reg]
    change d.Stays ([.regs (0x00 + d.a.mrPtr)] ++ [.channel .a .mrPtr]) _
    refine .bind (setReg_stays sound _ (by unfold duartNregs; omega)) fun _ d' _ kept => ?_
    split
    · exact modify_stays ⟨kept.a.second, kept.b⟩ (Duart.onlyChanges_a d'.a.second_only)
    · exact pure_stays kept ()
  case h_2 reg =>
    rw [reg]
    exact modify_stays ⟨sound.a.command _, sound.b⟩ (Duart.onlyChanges_a (d.a.command_only _))
  case h_3 reg =>
    rw [reg]
    exact modify_stays ⟨sound.a.transmit _ _, sound.b⟩
      (Duart.onlyChanges_a (sound.a.transmit_only _ _))
  case h_4 reg =>
    rw [reg]
    change d.Stays ([.regs (0x08 + d.b.mrPtr)] ++ [.channel .b .mrPtr]) _
    refine .bind (setReg_stays sound _ (by unfold duartNregs; omega)) fun _ d' _ kept => ?_
    split
    · exact modify_stays ⟨kept.a, kept.b.second⟩ (Duart.onlyChanges_b d'.b.second_only)
    · exact pure_stays kept ()
  case h_5 reg =>
    rw [reg]
    exact modify_stays ⟨sound.a, sound.b.command _⟩ (Duart.onlyChanges_b (d.b.command_only _))
  case h_6 reg =>
    rw [reg]
    exact modify_stays ⟨sound.a, sound.b.transmit _ _⟩
      (Duart.onlyChanges_b (sound.b.transmit_only _ _))
  case h_7 reg =>
    rw [reg]
    change d.Stays ([.opr, .nv] ++ [.regs 0x0F]) _
    exact .bind (modify_stays ⟨sound.a, sound.b⟩ (d.onlyChanges_opr _ _))
      fun _ d' _ kept => setReg_stays kept _ (by decide)
  case h_8 =>
    rw [writeFields_other d (by simp_all)]
    exact setReg_stays sound _ inside

/-- The upper half of the window has no entry in the register file. -/
theorem duartRead_outside (outside : duartNregs ≤ duartReg offset) :
    duartRead offset d = none := by
  obtain ⟨k, reg⟩ := Nat.exists_eq_add_of_le' outside
  rw [duartRead, Prog.get_bind_run, reg]
  change (Duart.getReg (k + duartNregs) >>= fun byte => pure (byte.setWidth 32)) d = none
  rw [Prog.bind_run, getReg_outside (Nat.le_add_left _ _)]
  rfl

theorem duartWrite_outside (value : Word) (outside : duartNregs ≤ duartReg offset) :
    duartWrite offset value d = none := by
  obtain ⟨k, reg⟩ := Nat.exists_eq_add_of_le' outside
  rw [duartWrite, Prog.get_bind_run, reg]
  exact setReg_outside _ (Nat.le_add_left _ _)

end Registers

section Runs

variable {d : Duart}

theorem duartReg_window (offset : Fin 0x80) :
    duartReg (BitVec.ofNat 32 offset) = offset.val / 4 := by
  have small := offset.isLt
  rw [duartReg, BitVec.toNat_ofNat]
  omega

theorem duartReg_inside_iff (offset : Fin 0x80) :
    duartReg (BitVec.ofNat 32 offset) < duartNregs ↔ offset.val < 0x40 := by
  rw [duartReg_window, duartNregs]
  omega

/-- One access within the register file. -/
theorem DuartAccess.stays (sound : d.Sound) {access : DuartAccess} (inFile : access.InFile) :
    d.Stays (access.fields d) access.run := by
  cases access with
  | read offset => exact .map (duartRead_stays sound ((duartReg_inside_iff offset).mpr inFile)) _
  | write offset value =>
      exact duartWrite_stays sound value ((duartReg_inside_iff offset).mpr inFile)
  | feed line byte =>
      cases line with
      | a =>
          obtain ⟨c', run, kept, only⟩ := sound.a.feedInput byte
          exact onA_stays sound ⟨(), c', run, kept, only⟩
      | b =>
          obtain ⟨c', run, kept, only⟩ := sound.b.feedInput byte
          exact onB_stays sound ⟨(), c', run, kept, only⟩

/-- Any other access has no result. -/
theorem DuartAccess.inFile_of_run {d' : Duart} {access : DuartAccess}
    (run : access.run d = some ((), d')) : access.InFile := by
  by_contra outside
  cases access with
  | read offset =>
      have none : duartRead (BitVec.ofNat 32 offset) d = none :=
        duartRead_outside (Nat.not_lt.mp fun inside =>
          outside ((duartReg_inside_iff offset).mp inside))
      rw [DuartAccess.run, Prog.bind_run, none] at run
      cases run
  | write offset value =>
      have none : duartWrite (BitVec.ofNat 32 offset) value d = none :=
        duartWrite_outside value
          (Nat.not_lt.mp fun inside => outside ((duartReg_inside_iff offset).mp inside))
      rw [DuartAccess.run, none] at run
      cases run
  | feed => exact outside trivial

theorem staysInArrays_iff (sound : d.Sound) (accesses : List DuartAccess) :
    StaysInArrays d accesses ↔ ∀ access ∈ accesses, access.InFile := by
  induction accesses generalizing d with
  | nil => simp [StaysInArrays]
  | cons access rest ih =>
      rw [StaysInArrays, List.forall_mem_cons]
      constructor
      · rintro ⟨d', run, -, later⟩
        have inFile := DuartAccess.inFile_of_run run
        obtain ⟨⟨⟩, d'', run', -, kept⟩ := DuartAccess.stays sound inFile
        obtain ⟨-, rfl⟩ := Prod.mk.inj (Option.some.inj (run.symm.trans run'))
        exact ⟨inFile, (ih kept).mp later⟩
      · rintro ⟨inFile, later⟩
        obtain ⟨⟨⟩, d', run, only, kept⟩ := DuartAccess.stays sound inFile
        exact ⟨d', run, only, (ih kept).mpr later⟩

/-- The accesses of a run stay in the arrays, and change only what their registers stand
for, exactly when none of them is to the upper half of the window. -/
theorem duart_run_stays_iff (nv : Nvram) (accesses : List DuartAccess) :
    StaysInArrays { duartNew with nv := nv } accesses ↔
      ∀ access ∈ accesses, access.InFile :=
  staysInArrays_iff (duartNew_sound nv) accesses

/-- A write to register 16, the first byte behind `regs`. -/
theorem duart_run_leaves_arrays :
    ¬ ∀ accesses, StaysInArrays duartNew accesses := by
  intro all
  obtain ⟨d', run, -⟩ := all [.write 0x40 0#32]
  have outside : (DuartAccess.write 0x40 0#32).run duartNew = none := by
    decide
  rw [outside] at run
  cases run

end Runs

end Ncd15.Emulator
