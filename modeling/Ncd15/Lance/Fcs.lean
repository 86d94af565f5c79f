import Ncd15.Lance.Paths
import Ncd15.Library.Crc

/-!
# The frame check sequence

The three CRC-32 implementations of the repository, the frames that are built with their
check sequence behind them, and the check of `lance_receive`.
-/

namespace Ncd15.Lance

open Ncd15.Library

section Implementations

/-- One bit of `eth_crc32`. -/
def ethStep (crc : Addr) : Addr :=
  (crc >>> 1) ^^^ (0xEDB88320#32 &&& -(crc &&& 1#32))

/-- `eth_crc32` of the glue. -/
def ethCrc32 (data : List Byte) : Addr :=
  ~~~ data.foldl (fun crc b => ethStep^[8] (crc ^^^ b.setWidth 32)) 0xFFFFFFFF#32

/-- One round of the loop of `crc32_byte`. -/
def crc32Round (crc : Addr) : Addr :=
  (crc >>> 1) ^^^ (if crc &&& 1#32 ≠ 0#32 then 0xEDB88320#32 else 0#32)

/-- `crc32_byte` of the command processor. -/
def crc32Byte (crc : Addr) (b : Byte) : Addr :=
  crc32Round^[8] (crc ^^^ b.setWidth 32)

/-- The fold of `cmd_crc32`. -/
def ccpCrc32 (data : List Byte) : Addr :=
  data.foldl crc32Byte 0xFFFFFFFF#32 ^^^ 0xFFFFFFFF#32

/-- `framed` of `lance_glue_recv`: the frame with its FCS, where the buffer has room for it. -/
def lanceGlueFramed (buf : List Byte) : List Byte :=
  if 1600 < buf.length + 4 then buf else buf ++ fcsBytes (ethCrc32 buf)

/-- `lance_glue_recv`, as far as the chip sees it. -/
def lanceGlueRecv (host : Host) (buf : List Byte) : LanceM Int :=
  lanceRecv host (lanceGlueFramed buf)

end Implementations

section Agreement

theorem crcStep_eq : crcStep = crcShift 0xEDB88320#32 := rfl

theorem low_bit (crc : Addr) : crc &&& 1#32 = if crc.getLsbD 0 then 1#32 else 0#32 := by
  rw [BitVec.and_one_eq_setWidth_ofBool_getLsbD]
  cases crc.getLsbD 0 <;> rfl

theorem ethStep_eq : ethStep = crcStep := by
  funext crc
  rw [ethStep, crcStep, low_bit]
  cases crc.getLsbD 0
  · exact BitVec.xor_zero
  · exact BitVec.xor_comm _ _

theorem crc32Round_eq : crc32Round = crcStep := by
  funext crc
  rw [crc32Round, crcStep, low_bit]
  cases crc.getLsbD 0
  · exact BitVec.xor_zero
  · exact BitVec.xor_comm _ _

/-- The table-driven step is the bitwise one. -/
theorem crcTable_byte (crc : Addr) (b : Byte) :
    crcTable (crc.setWidth 8 ^^^ b) ^^^ (crc >>> 8) = crcByte 0xEDB88320#32 crc b := by
  rw [crcByte_table, crcTable, crcStep_eq]

theorem lanceCrc32_eq (data : List Byte) :
    lanceCrc32 data = ~~~ data.foldl (crcByte 0xEDB88320#32) 0xFFFFFFFF#32 := by
  rw [lanceCrc32, funext₂ crcTable_byte]

theorem ethCrc32_eq (data : List Byte) : ethCrc32 data = lanceCrc32 data := by
  rw [lanceCrc32_eq, ethCrc32, ethStep_eq]
  rfl

theorem ccpCrc32_eq (data : List Byte) : ccpCrc32 data = lanceCrc32 data := by
  have inverted (x : Addr) : x ^^^ 0xFFFFFFFF#32 = ~~~ x := BitVec.xor_allOnes
  have byte : crc32Byte = crcByte 0xEDB88320#32 := by
    funext crc b
    rw [crc32Byte, crc32Round_eq, crcStep_eq, crcByte]
  rw [lanceCrc32_eq, ccpCrc32, inverted, byte]

theorem fcsBytes_eq (crc : Addr) : fcsBytes crc = leBytes 4 crc := by
  simp only [fcsBytes, leBytes, ← BitVec.shiftRight_add]

/-- The frame passes the check of `lance_receive`. -/
def FcsPasses (frame : List Byte) : Prop := lanceCrc32 frame = 0x2144DF1C#32

theorem fcsPasses_append (data : List Byte) :
    FcsPasses (data ++ fcsBytes (lanceCrc32 data)) := by
  have residue : (crcShift 0xEDB88320#32)^[32] (BitVec.allOnes 32) = 0xDEBB20E3#32 := by
    decide +kernel
  rw [FcsPasses, fcsBytes_eq, lanceCrc32_eq data, lanceCrc32_eq,
    foldl_residue 0xEDB88320#32 (n := 4) rfl, residue]
  rfl

/-- A frame that passes gets ENP and neither ERR nor CRC. -/
theorem checkFcs_of_passes {frame : List Byte} (passes : FcsPasses frame) (l : Chip) :
    checkFcs frame frame.length l = { l with rxMd1 := l.rxMd1 ||| 0x0100 } := by
  have right : ¬ ((¬ modeLoop l.mode ∨ modeDtcr l.mode) ∧ lanceCrc32 frame ≠ 0x2144DF1C#32) :=
    fun wrong => wrong.2 passes
  rw [checkFcs, if_pos rfl, if_neg right]

end Agreement

section Frames

/-- The frames that have left the chip, and the one in the loopback buffer. -/
def Chip.frames (l : Chip) : List (List Byte) × List Byte :=
  (l.log.filterMap fun
    | .send frame => some frame
    | _ => none, l.lbBuf)

theorem frames_blind : DmaBlind Chip.frames := ⟨fun _ _ => rfl, fun _ _ _ => rfl⟩

theorem transmitNext_frames (dmaIn : DmaIn) (slot : Addr) (buf : List Byte) :
    Keeps Chip.frames (transmitNext dmaIn slot buf) := by
  refine .bind .get fun l => ?_
  refine .bind (.ite (dmaInWord_keeps frames_blind _ _) (.pure _)) fun nextTmd1 => .ite ?_ ?_
  · refine .bind (dmaOutWord_keeps frames_blind _ _) fun _ => ?_
    exact .bind (.modify fun _ => rfl) fun _ => .pure _
  · refine .bind (.modify fun _ => rfl) fun _ => ?_
    refine .bind (dmaOutWord_keeps frames_blind _ _) fun _ => ?_
    exact .bind (.modify fun _ => rfl) fun _ => .pure _

theorem transmitRound_frames (dmaIn : DmaIn) (state : Addr × List Byte) :
    Keeps Chip.frames (transmitRound dmaIn state) := by
  obtain ⟨slot, buf⟩ := state
  refine .bind (dmaInWord_keeps frames_blind _ _) fun md0 => ?_
  refine .bind (.modify fun _ => rfl) fun _ => ?_
  refine .bind (dmaInWord_keeps frames_blind _ _) fun md2 => ?_
  refine .bind (.modify fun _ => rfl) fun _ => ?_
  refine .bind .get fun l => .bind (.modify fun _ => rfl) fun _ => .ite ?_ ?_
  · refine .bind (dmaOutWord_keeps frames_blind _ _) fun _ => ?_
    exact .bind (.modify fun _ => rfl) fun _ => .pure _
  · exact .bind (gather_keeps frames_blind _ _ _ _) fun _ =>
      .ite (transmitNext_frames _ _ _) (.pure _)

theorem markResult_frames (slot : Addr) (result : Int) :
    Keeps Chip.frames (markResult slot result) := by
  refine .bind .get fun l => .ite (.modify fun _ => rfl) ?_
  refine .ite (.bind (.modify fun _ => rfl) fun _ => dmaOutWord_keeps frames_blind _ _) ?_
  exact .ite (.bind (.modify fun _ => rfl) fun _ => dmaOutWord_keeps frames_blind _ _) (.pure _)

theorem lanceUpdateInterrupts_frames (l : Chip) : (lanceUpdateInterrupts l).frames = l.frames := by
  unfold lanceUpdateInterrupts
  dsimp only
  repeat' split
  all_goals rfl

theorem lanceSendComplete_frames (result : Int) :
    Keeps Chip.frames (lanceSendComplete result) := by
  refine .bind .get fun l => .bind (markResult_frames _ _) fun _ => .bind .get fun marked => ?_
  refine .bind (dmaOutWord_keeps frames_blind _ _) fun _ => .bind (.modify fun _ => rfl) fun _ => ?_
  exact .modify fun l => lanceUpdateInterrupts_frames _

/-- The frames built since a state of the chip pass the check. -/
structure Framed (start l : Chip) : Prop where
  sent : ∀ frame ∈ l.frames.1, frame ∈ start.frames.1 ∨ FcsPasses frame
  looped : l.frames.2 = start.frames.2 ∨ FcsPasses l.frames.2

variable {host : Host} {start : Chip}

theorem Framed.of_frames {l l' : Chip} (framed : Framed start l) (same : l'.frames = l.frames) :
    Framed start l' := by
  constructor
  · rw [same]
    exact framed.sent
  · rw [same]
    exact framed.looped

theorem keeps_framed {α : Type} {f : LanceM α} (keeps : Keeps Chip.frames f) :
    Triple (Framed start) f fun _ => Framed start :=
  keeps.triple fun _ _ same framed => framed.of_frames same

theorem transmitExternal_framed {frame : List Byte} (passes : FcsPasses frame) :
    Triple (Framed start) (transmitExternal host frame) fun _ => Framed start := by
  refine .bind (Q := fun _ => Framed start) (.modify fun l framed => ?_) fun _ => ?_
  · split
    case isTrue =>
      refine ⟨fun other member => ?_, framed.looped⟩
      rcases List.mem_cons.mp member with rfl | old
      · exact .inr passes
      · exact framed.sent other old
    case isFalse => exact framed
  refine .bind (keeps_framed (lanceSendComplete_frames _)) fun _ => .modify fun l framed => ?_
  split
  case isTrue => exact ⟨framed.sent, .inr passes⟩
  case isFalse => exact framed

theorem transmitFrame_framed (buf : List Byte) :
    Triple (Framed start) (transmitFrame host true buf) fun _ => Framed start := by
  have passes := fcsPasses_append buf
  refine .bind (Q := fun _ => Framed start) (.modify fun l framed => ?_) fun _ => ?_
  · refine framed.of_frames ?_
    unfold babble
    split <;> rfl
  refine .get_any fun l => .ite (fun _ => ?_) fun _ => transmitExternal_framed passes
  refine .ite (fun _ => keeps_framed (lanceSendComplete_frames _)) fun _ => ?_
  refine .ite (fun _ => keeps_framed (lanceSendComplete_frames _)) fun short => ?_
  -- a loopback frame is short, so that the buffer takes all of it
  have whole : (buf ++ fcsBytes (lanceCrc32 buf)).take 100 = buf ++ fcsBytes (lanceCrc32 buf) := by
    refine List.take_of_length_le ?_
    rw [List.length_append, show (fcsBytes (lanceCrc32 buf)).length = 4 from rfl]
    omega
  refine .bind (Q := fun _ => Framed start) (.modify fun l framed => ?_) fun _ => ?_
  · refine ⟨framed.sent, .inr ?_⟩
    change FcsPasses (List.take 100 _)
    rw [if_pos rfl, whole]
    exact passes
  · refine .ite (fun _ => keeps_framed (lanceSendComplete_frames _)) fun _ => ?_
    rw [if_pos rfl, whole]
    exact transmitExternal_framed passes

/-- Whatever `lance_transmit` sends or loops back with an FCS passes the check. -/
theorem lanceTransmit_framed (dmaIn : DmaIn) (rounds : Nat)
    (appends : ¬ modeDtcr start.mode ∨ start.variant = .am79c90 ∧ start.txMd1.getLsbD 13) :
    Triple (· = start) (lanceTransmit host dmaIn rounds) fun _ => Framed start := by
  refine .get_then ?_
  rintro l rfl
  have flag : decide (¬ modeDtcr l.mode ∨ l.variant = .am79c90 ∧ l.txMd1.getLsbD 13) = true :=
    decide_eq_true appends
  refine .bind (Q := fun _ => Framed l) (.modify ?_) fun _ => ?_
  · rintro _ rfl
    refine ⟨fun frame member => .inl ?_, .inl ?_⟩
    · split at member <;> exact member
    · split <;> rfl
  refine .bind (keeps_framed (.loop (transmitRound_frames dmaIn) _ _)) fun result => ?_
  split
  · exact .pure fun _ => id
  · rw [flag]
    exact transmitFrame_framed _

end Frames

section Law

/-- The check of `lance_receive` finds nothing wrong with the frame. -/
def FcsAccepted (frame : List Byte) : Prop :=
  ∀ l, checkFcs frame frame.length l = { l with rxMd1 := l.rxMd1 ||| 0x0100 }

/-- The three implementations agree, and frames with their FCS pass the check. -/
structure FcsLaw : Prop where
  glue : ∀ data, ethCrc32 data = lanceCrc32 data
  ccp : ∀ data, ccpCrc32 data = lanceCrc32 data
  residue : ∀ data, lanceCrc32 (data ++ fcsBytes (lanceCrc32 data)) = 0x2144DF1C#32
  transmitted : ∀ host dmaIn rounds (start l : Chip),
    lanceTransmit host dmaIn rounds start = some ((), l) →
    ¬ modeDtcr start.mode ∨ start.variant = .am79c90 ∧ start.txMd1.getLsbD 13 →
    (∀ frame ∈ l.frames.1, frame ∈ start.frames.1 ∨ FcsAccepted frame) ∧
      (l.frames.2 = start.frames.2 ∨ FcsAccepted l.frames.2)
  received : ∀ buf : List Byte, buf.length + 4 ≤ 1600 → FcsAccepted (lanceGlueFramed buf)

theorem fcsLaw : FcsLaw where
  glue := ethCrc32_eq
  ccp := ccpCrc32_eq
  residue := fcsPasses_append
  transmitted host dmaIn rounds start l run appends := by
    have framed := lanceTransmit_framed dmaIn rounds appends start rfl () l run
    exact ⟨fun frame member => (framed.sent frame member).imp_right checkFcs_of_passes,
      framed.looped.imp_right checkFcs_of_passes⟩
  received buf fits := by
    rw [lanceGlueFramed, if_neg (by omega), ethCrc32_eq]
    exact checkFcs_of_passes (fcsPasses_append buf)

end Law

end Ncd15.Lance
