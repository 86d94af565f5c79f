import Mathlib.Data.List.Infix
import Ncd15.Emulator.Duart

/-!
# The EEPROM that the output port drives

What a 93C46 is for: sixty-four words and a flag that allows to change them, and
the commands on them.  A selection clocks a command in bit by bit through the
output port of the DUART, up to its end, beyond it, or to any earlier point; the
device does to its words what the command says when all of it was clocked in.
-/

namespace Ncd15.Emulator

open Ncd15.Library

section Commands

/-- The words of the EEPROM and its write-enable flag. -/
@[ext]
structure Eeprom where
  words : BitVec 6 → BitVec 16
  enabled : Bool

/-- The commands; the address bits that one leaves open are part of it. -/
inductive Command
  | read (a : BitVec 6)
  | write (a : BitVec 6) (value : BitVec 16)
  | erase (a : BitVec 6)
  | ewen (rest : BitVec 4)
  | ewds (rest : BitVec 4)
  | eral (rest : BitVec 4)
  deriving DecidableEq

namespace Command

def opcode : Command → BitVec 2
  | read _ => 2#2
  | write _ _ => 1#2
  | erase _ => 3#2
  | ewen _ | ewds _ | eral _ => 0#2

def address : Command → BitVec 6
  | read a | write a _ | erase a => a
  | ewen rest => 3#2 ++ rest
  | ewds rest => 0#2 ++ rest
  | eral rest => 2#2 ++ rest

/-- Start bit, opcode and address. -/
def header (c : Command) : BitVec 9 :=
  1#1 ++ (c.opcode ++ c.address)

/-- The bits of a word, the highest first. -/
def msbFirst {w : Nat} (x : BitVec w) : List Bool :=
  (List.range w).map x.getMsbD

/-- The bits that follow the header. -/
def data : Command → List Bool
  | write _ value => msbFirst value
  | _ => []

def bits (c : Command) : List Bool :=
  msbFirst c.header ++ c.data

end Command

namespace Eeprom

variable (e : Eeprom)

def exec : Command → Eeprom
  | .read _ => e
  | .write a value =>
      if e.enabled then { e with words := Function.update e.words a value } else e
  | .erase a => if e.enabled then { e with words := Function.update e.words a 0xFFFF#16 } else e
  | .ewen _ => { e with enabled := true }
  | .ewds _ => { e with enabled := false }
  | .eral _ => if e.enabled then { e with words := fun _ => 0xFFFF#16 } else e

end Eeprom

/-- What is clocked while the chip is selected once: a part of a command, or a
command and further bits. -/
structure Session where
  command : Command
  clocked : List Bool
  legal : clocked <+: command.bits ∨ command.bits <+: clocked

/-- A command has its effect when all of its bits were clocked. -/
def Eeprom.after (e : Eeprom) (s : Session) : Eeprom :=
  if s.command.bits <+: s.clocked then e.exec s.command else e

/-- What a `READ` of `word` shows `data` clocks after its header. -/
def readOutBit (word : BitVec 16) : Nat → Bool
  | 0 => false
  | data + 1 => word.getMsbD data

end Commands

section Port

def pinDi (value : Word) : Bool := value.getLsbD 4

def pinCs (value : Word) : Bool := value.getLsbD 5

def pinSk (value : Word) : Bool := value.getLsbD 6

/-- The bits that writes to the output port clock in: at every write that raises
`SK`, the level of `DI` before it. -/
def risingBits : Word → List Word → List Bool
  | _, [] => []
  | previous, value :: rest =>
      if pinSk value ∧ ¬ pinSk previous then pinDi previous :: risingBits value rest
      else risingBits value rest

/-- The writes while the chip is selected: the first one raises `CS` with `SK`
low. -/
inductive Selection (s : Session) : List Word → Prop
  | mk (first : Word) (rest : List Word) (raised : pinCs first) (low : ¬ pinSk first)
      (held : ∀ value ∈ rest, pinCs value) (clocked : risingBits first rest = s.clocked) :
      Selection s (first :: rest)

/-- The writes of a list of sessions, each ended by dropping `CS`. -/
inductive Sessions : List Session → List Word → Prop
  | start {idle : List Word} (low : ∀ value ∈ idle, ¬ pinCs value) : Sessions [] idle
  | next {done : List Session} {s : Session} {before held idle : List Word}
      (ran : Sessions done before) (selected : Selection s held) (dropped : idle ≠ [])
      (low : ∀ value ∈ idle, ¬ pinCs value) : Sessions (done ++ [s]) (before ++ held ++ idle)

/-- Offset of the output port register. -/
def oprOffset : Word := 0x3C#32

/-- Offset of the input port register. -/
def ipcrOffset : Word := 0x10#32

/-- Guest writes to the output port, in order. -/
def writeOpr : List Word → Prog Duart Unit
  | [] => pure ()
  | value :: rest => do
      duartWrite oprOffset value
      writeOpr rest

end Port

section Clocking

/-- The words and the flag of the device. -/
def Nvram.eeprom (n : Nvram) : Eeprom where
  words a := n.mem.get a.toFin
  enabled := n.ewen

/-- How far a selected chip has come with a command after `clocks` bits of it. -/
inductive Progress (c : Command) (e : Eeprom) (clocks : Nat) (n : Nvram) : Prop
  | header (short : clocks < 9) (state : n.state = .cmd) (count : n.rxCount = clocks)
      (shifted : n.rxShift = (c.header >>> (9 - clocks)).setWidth 32) (eeprom : n.eeprom = e)
  | reading (a : BitVec 6) (command : c = .read a) (full : 9 ≤ clocks)
      (state : n.state = .readOut) (count : n.txCount = BitVec.ofNat 32 (clocks - 8))
      (shifted : n.txShift = (e.words a).setWidth 32) (eeprom : n.eeprom = e)
  | writing (a : BitVec 6) (value : BitVec 16) (command : c = .write a value)
      (full : 9 ≤ clocks) (short : clocks < 25) (state : n.state = .writeIn)
      (count : n.rxCount = clocks - 9)
      (shifted : n.rxShift = (value >>> (25 - clocks)).setWidth 32)
      (addr : n.addr = a.toNat) (eeprom : n.eeprom = e)
  | done (full : c.bits.length ≤ clocks) (changing : ∀ a, c ≠ .read a)
      (state : n.state = .idle) (eeprom : n.eeprom = e.exec c)

/-- Shifting in the next bit of a word, the highest first. -/
theorem shiftIn_msb {w : Nat} (x : BitVec w) {k : Nat} (short : k < w) :
    (x >>> (w - k)).setWidth 32 <<< 1 ||| (if x.getMsbD k then 1#32 else 0#32) =
      (x >>> (w - (k + 1))).setWidth 32 := by
  apply BitVec.eq_of_getLsbD_eq
  intro i small
  rw [BitVec.getLsbD_or, BitVec.getLsbD_shiftLeft, BitVec.getLsbD_setWidth,
    BitVec.getLsbD_setWidth, BitVec.getLsbD_ushiftRight, BitVec.getLsbD_ushiftRight]
  cases i with
  | zero =>
      have here : w - 1 - k = w - (k + 1) + 0 := by omega
      rw [BitVec.getMsbD_eq_getLsbD, here]
      cases x.getLsbD (w - (k + 1) + 0) <;> simp [short]
  | succ i =>
      have here : w - k + i = w - (k + 1) + (i + 1) := by omega
      have none : (if x.getMsbD k then 1#32 else 0#32).getLsbD (i + 1) = false := by
        split <;> simp [BitVec.getLsbD_one]
      have inside : i < 32 := by omega
      rw [none, Nat.add_sub_cancel, here]
      simp [small, inside]

/-- What `nvram_sk_rise` takes out of a full header. -/
theorem header_fields (op : BitVec 2) (a : BitVec 6) :
    let shift := (1#1 ++ (op ++ a)).setWidth 32
    shift.getLsbD 8 = true ∧ (shift &&& 0xFF#32).toNat &&& 0x3F = a.toNat ∧
      (shift &&& 0xFF#32).toNat >>> 6 &&& 3 = op.toNat := by
  decide +revert +kernel

theorem Nvram.riseCmd_short {n : Nvram} (short : n.rxCount + 1 < 9) : n.riseCmd = n.shiftIn :=
  if_pos short

theorem Nvram.riseCmd_full {n : Nvram} {op : BitVec 2} {a : BitVec 6} (full : 8 ≤ n.rxCount)
    (shifted : n.shiftIn.rxShift = (1#1 ++ (op ++ a)).setWidth 32) :
    n.riseCmd = { n.shiftIn with addr := a.toNat }.dispatch op.toNat := by
  obtain ⟨start, addr, field⟩ := header_fields op a
  have count : ¬ n.shiftIn.rxCount < 9 := Nat.not_lt.mpr (Nat.succ_le_succ full)
  simp only [Nvram.riseCmd, if_neg count, shifted, start, addr, field, Bool.not_true,
    Bool.false_and, Bool.false_eq_true, if_false]

theorem Nvram.skRise_of_cmd {n : Nvram} (selected : n.cs = true) (state : n.state = .cmd) :
    n.skRise =
      if n.riseCmd.state = .readOut then { n.riseCmd with txCount := n.riseCmd.txCount + 1#32 }
      else n.riseCmd := by
  simp [Nvram.skRise, selected, state]

theorem Command.bits_header (c : Command) {k : Nat} (short : k < 9) :
    c.bits[k]? = some (c.header.getMsbD k) := by
  simp [Command.bits, Command.msbFirst, List.getElem?_append, short]

theorem Command.bits_data {a : BitVec 6} {value : BitVec 16} {k : Nat} (full : 9 ≤ k)
    (short : k < 25) : (Command.write a value).bits[k]? = some (value.getMsbD (k - 9)) := by
  have inside : k - 9 < 16 := by omega
  simp [Command.bits, Command.msbFirst, Command.data, List.getElem?_append, full.not_gt, inside]

theorem Nvram.eeprom_words (n : Nvram) (a : BitVec 6) (inside : a.toNat < nvramWords) :
    n.eeprom.words a = n.mem[a.toNat] :=
  rfl

theorem Nvram.eeprom_set (n : Nvram) (a : BitVec 6) (value : BitVec 16) :
    { n with mem := n.mem.setIfInBounds a.toNat value }.eeprom =
      { n.eeprom with words := Function.update n.eeprom.words a value } := by
  ext1
  · funext b
    have inside : b.toNat < nvramWords := b.isLt
    rw [Nvram.eeprom_words _ b inside]
    by_cases same : b = a
    · subst same
      simp
    · have apart : a.toNat ≠ b.toNat := fun eq => same (BitVec.eq_of_toNat_eq eq.symm)
      simp [Nvram.eeprom_words n b inside, same, apart]
  · rfl

theorem Nvram.eeprom_fill (n : Nvram) (value : BitVec 16) :
    { n with mem := Vector.replicate nvramWords value }.eeprom =
      { n.eeprom with words := fun _ => value } := by
  ext1
  · funext b
    have inside : b.toNat < nvramWords := b.isLt
    rw [Nvram.eeprom_words _ b inside]
    simp
  · rfl

/-- The sub-opcode of `EWEN`, `EWDS` and `ERAL`. -/
theorem subOpcode (top : BitVec 2) (rest : BitVec 4) :
    (top ++ rest).toNat >>> 4 &&& 3 = top.toNat := by
  decide +revert +kernel

/-- The commands that are executed as soon as their header is complete. -/
def Command.immediate : Command → Bool
  | .read _ | .write _ _ => false
  | .erase _ | .ewen _ | .ewds _ | .eral _ => true

theorem Nvram.dispatch_state {c : Command} (n : Nvram) (immediate : c.immediate) :
    ({ n with addr := c.address.toNat }.dispatch c.opcode.toNat).state = .idle := by
  cases c with
  | read a => cases immediate
  | write a value => cases immediate
  | erase a => rfl
  | ewen rest => simp [Nvram.dispatch, Command.opcode, Command.address, subOpcode]
  | ewds rest => simp [Nvram.dispatch, Command.opcode, Command.address, subOpcode]
  | eral rest => simp [Nvram.dispatch, Command.opcode, Command.address, subOpcode]

theorem Nvram.dispatch_eeprom {c : Command} (n : Nvram) (immediate : c.immediate) :
    ({ n with addr := c.address.toNat }.dispatch c.opcode.toNat).eeprom = n.eeprom.exec c := by
  have enabled : n.eeprom.enabled = n.ewen := rfl
  cases c with
  | read a => cases immediate
  | write a value => cases immediate
  | erase a =>
      rw [Eeprom.exec, enabled]
      split
      next on =>
        refine .trans ?_ (n.eeprom_set a 0xFFFF#16)
        simp [Nvram.dispatch, Command.opcode, Command.address, on, Nvram.eeprom]
      next off => simp [Nvram.dispatch, Command.opcode, Command.address, off, Nvram.eeprom]
  | ewen rest =>
      simp [Nvram.dispatch, Command.opcode, Command.address, subOpcode, Eeprom.exec,
        Nvram.eeprom]
  | ewds rest =>
      simp [Nvram.dispatch, Command.opcode, Command.address, subOpcode, Eeprom.exec,
        Nvram.eeprom]
  | eral rest =>
      rw [Eeprom.exec, enabled]
      split
      next on =>
        refine .trans ?_ (n.eeprom_fill 0xFFFF#16)
        simp [Nvram.dispatch, Command.opcode, Command.address, subOpcode, on, Nvram.eeprom]
      next off =>
        simp [Nvram.dispatch, Command.opcode, Command.address, subOpcode, off, Nvram.eeprom]

/-- The rise that completes the header. -/
theorem Progress.dispatched {c : Command} {e : Eeprom} {n : Nvram}
    (selected : n.cs = true) (state : n.state = .cmd) (full : n.rxCount = 8)
    (shifted : n.shiftIn.rxShift = c.header.setWidth 32) (eeprom : n.eeprom = e) :
    Progress c e 9 n.skRise := by
  rw [Nvram.skRise_of_cmd selected state, Nvram.riseCmd_full full.ge shifted]
  by_cases immediate : c.immediate
  · have idle := n.shiftIn.dispatch_state immediate
    have changed := n.shiftIn.dispatch_eeprom immediate
    rw [idle, if_neg (by simp)]
    refine .done ?_ ?_ idle (changed.trans (congrArg (Eeprom.exec · c) eeprom))
    · cases c <;> simp_all [Command.bits, Command.msbFirst, Command.data, Command.immediate]
    · rintro a rfl
      cases immediate
  · cases c with
    | read a =>
        have inside : a.toNat < nvramWords := a.isLt
        have word : e.words a = n.mem[a.toNat] := by
          rw [← eeprom]
          rfl
        refine .reading a rfl (by omega) rfl rfl ?_ eeprom
        simp [Nvram.dispatch, Command.opcode, Command.address, Nvram.shiftIn, inside, word,
          Vector.getD]
    | write a value =>
        have empty : value >>> 16 = 0#16 := by
          ext
          simp
        refine .writing a value rfl (by omega) (by omega) rfl rfl ?_ rfl eeprom
        simp [Nvram.dispatch, Command.opcode, empty]
    | erase a => exact absurd rfl immediate
    | ewen rest => exact absurd rfl immediate
    | ewds rest => exact absurd rfl immediate
    | eral rest => exact absurd rfl immediate

/-- The rise that brings a bit of the data of a `WRITE`. -/
theorem Progress.dataClocked {a : BitVec 6} {value : BitVec 16} {e : Eeprom} {k : Nat}
    {n : Nvram} (selected : n.cs = true) (full : 9 ≤ k) (short : k < 25)
    (state : n.state = .writeIn) (count : n.rxCount = k - 9)
    (shifted : n.shiftIn.rxShift = (value >>> (25 - (k + 1))).setWidth 32)
    (addr : n.addr = a.toNat) (eeprom : n.eeprom = e) :
    Progress (.write a value) e (k + 1) n.skRise := by
  have enabled : n.ewen = e.enabled := congrArg Eeprom.enabled eeprom
  have counted : n.shiftIn.rxCount = k + 1 - 9 := by
    simp only [Nvram.shiftIn, count]
    omega
  by_cases last : k = 24
  · subst last
    have whole : n.shiftIn.rxShift.setWidth 16 = value := by
      rw [shifted]
      simp
    have fires : n.riseWriteIn =
        { n.shiftIn with
          mem := if n.ewen then n.mem.setIfInBounds n.addr value else n.mem
          state := .idle } := by
      simp only [Nvram.riseWriteIn, counted, whole]
      rfl
    have rise : n.skRise = n.riseWriteIn := by
      simp [Nvram.skRise, selected, state, fires]
    rw [rise, fires]
    refine .done ?_ (by simp) rfl ?_
    · simp [Command.bits, Command.msbFirst, Command.data]
    · rw [Eeprom.exec, ← enabled, addr]
      split
      next on =>
        subst eeprom
        refine .trans ?_ (n.eeprom_set a value)
        simp [Nvram.eeprom, Nvram.shiftIn, on]
      next off => simp [Nvram.eeprom, Nvram.shiftIn, off, ← eeprom]
  · have waits : n.riseWriteIn = n.shiftIn := by
      have more : n.shiftIn.rxCount ≠ 16 := by omega
      simp only [Nvram.riseWriteIn, more, if_false]
    have rise : n.skRise = n.shiftIn := by
      have held : n.shiftIn.state ≠ .readOut := by simp [Nvram.shiftIn, state]
      simp [Nvram.skRise, selected, state, waits, held]
    rw [rise]
    exact .writing a value rfl (by omega) (by omega) state counted shifted addr eeprom

/-- One clock of a command. -/
theorem Progress.clock {c : Command} {e : Eeprom} {k : Nat} {n : Nvram}
    (progress : Progress c e k n) (selected : n.cs = true)
    (bit : ∀ b, c.bits[k]? = some b → n.di = b) : Progress c e (k + 1) n.skRise := by
  cases progress with
  | header short state count shifted eeprom =>
      have di := bit _ (c.bits_header short)
      have moved : n.shiftIn.rxShift = (c.header >>> (9 - (k + 1))).setWidth 32 := by
        rw [← shiftIn_msb c.header short, ← shifted, ← di]
        rfl
      by_cases last : k = 8
      · subst last
        exact Progress.dispatched selected state count (by simpa using moved) eeprom
      · have rise : n.skRise = n.shiftIn := by
          have cmd : n.shiftIn.state ≠ .readOut := by simp [Nvram.shiftIn, state]
          rw [Nvram.skRise_of_cmd selected state, Nvram.riseCmd_short (by omega), if_neg cmd]
        rw [rise]
        exact .header (by omega) state (by simp [Nvram.shiftIn, count]) moved eeprom
  | reading a command full state count shifted eeprom =>
      have rise : n.skRise = { n with txCount := n.txCount + 1#32 } := by
        simp [Nvram.skRise, selected, state]
      rw [rise]
      refine .reading a command (by omega) state ?_ shifted eeprom
      have counted : k + 1 - 8 = k - 8 + 1 := by omega
      simp only [count, counted, BitVec.ofNat_add]
  | writing a value command full short state count shifted addr eeprom =>
      subst command
      have di := bit _ (Command.bits_data full short)
      have moved : n.shiftIn.rxShift = (value >>> (25 - (k + 1))).setWidth 32 := by
        have here : 16 - (k - 9) = 25 - k := by omega
        have there : 16 - (k - 9 + 1) = 25 - (k + 1) := by omega
        rw [← there, ← shiftIn_msb value (by omega), here, ← shifted, ← di]
        rfl
      exact Progress.dataClocked selected full short state count moved addr eeprom
  | done full changing state eeprom =>
      have rise : n.skRise = n := by
        simp [Nvram.skRise, selected, state]
      rw [rise]
      exact .done (by omega) changing state eeprom

end Clocking

section Runs

/-- A write to the output port, as the EEPROM sees it. -/
def Nvram.port (n : Nvram) (value : Word) : Nvram :=
  n.write 0#32 (nvramPinsFromOpr (value.setWidth 8))

theorem duartWrite_opr (value : Word) (d : Duart) :
    ∃ d', duartWrite oprOffset value d = some ((), d') ∧ d'.nv = d.nv.port value :=
  ⟨_, rfl, rfl⟩

theorem duartRead_ipcr (d : Duart) :
    ∃ v, duartRead ipcrOffset d = some (v, d) ∧ v.getLsbD 2 = (d.nv.read 0#32).getLsbD 0 := by
  refine ⟨_, rfl, ?_⟩
  rw [BitVec.and_one_eq_setWidth_ofBool_getLsbD, BitVec.getLsbD_setWidth, BitVec.getLsbD_or]
  cases (d.nv.read 0#32).getLsbD 0 <;> simp

theorem nvramPinsFromOpr_bits (opr : BitVec 8) :
    (nvramPinsFromOpr opr).getLsbD 0 = opr.getLsbD 4 ∧
      (nvramPinsFromOpr opr).getLsbD 1 = opr.getLsbD 6 ∧
      (nvramPinsFromOpr opr).getLsbD 2 = opr.getLsbD 5 := by
  rw [nvramPinsFromOpr]
  cases opr.getLsbD 4 <;> cases opr.getLsbD 5 <;> cases opr.getLsbD 6 <;> decide

theorem Nvram.port_eq (n : Nvram) (value : Word) :
    n.port value =
      let raised := if pinCs value && !n.cs then n.beginCmd else n
      let dropped := if !pinCs value && raised.cs then { raised with state := .idle } else raised
      let clocked := if pinSk value && !dropped.sk && pinCs value then dropped.skRise else dropped
      { clocked with cs := pinCs value, sk := pinSk value, di := pinDi value } := by
  obtain ⟨di, sk, cs⟩ := nvramPinsFromOpr_bits (value.setWidth 8)
  rw [Nvram.port, Nvram.write, if_neg (by simp), di, sk, cs]
  simp [pinCs, pinSk, pinDi]

/-- The pins are as the last write left them. -/
structure Nvram.Held (n : Nvram) (value : Word) : Prop where
  cs : n.cs = pinCs value
  sk : n.sk = pinSk value
  di : n.di = pinDi value

theorem Nvram.port_held (n : Nvram) (value : Word) : (n.port value).Held value := by
  rw [Nvram.port_eq]
  exact ⟨rfl, rfl, rfl⟩

theorem Progress.of_pins {c : Command} {e : Eeprom} {k : Nat} {n : Nvram}
    (progress : Progress c e k n) (cs sk di : Bool) :
    Progress c e k { n with cs := cs, sk := sk, di := di } := by
  cases progress with
  | header short state count shifted eeprom => exact .header short state count shifted eeprom
  | reading a command full state count shifted eeprom =>
      exact .reading a command full state count shifted eeprom
  | writing a value command full short state count shifted addr eeprom =>
      exact .writing a value command full short state count shifted addr eeprom
  | done full changing state eeprom => exact .done full changing state eeprom

/-- Raising `CS` with `SK` low begins any command. -/
theorem Progress.begin (c : Command) {n : Nvram} {value : Word} (idle : n.cs = false)
    (raised : pinCs value) (low : ¬ pinSk value) : Progress c n.eeprom 0 (n.port value) := by
  have empty : c.header >>> 9 = 0#9 := by
    ext
    simp
  have start : Progress c n.eeprom 0 n.beginCmd :=
    .header (by omega) rfl rfl (by simp [Nvram.beginCmd, empty]) rfl
  rw [Nvram.port_eq]
  simp only [raised, low, idle, Bool.not_false, Bool.and_self, Bool.not_true, Bool.false_and,
    if_true, Bool.false_eq_true, if_false]
  exact start.of_pins _ _ _

theorem Progress.port_rise {c : Command} {e : Eeprom} {k : Nat} {n : Nvram}
    {previous value : Word} (progress : Progress c e k n) (held : n.Held previous)
    (selected : pinCs previous) (still : pinCs value) (rises : pinSk value ∧ ¬ pinSk previous)
    (bit : ∀ b, c.bits[k]? = some b → pinDi previous = b) :
    Progress c e (k + 1) (n.port value) := by
  have cs : n.cs = true := held.cs.trans selected
  have sk : n.sk = false := by simpa [rises.2] using held.sk
  rw [Nvram.port_eq]
  simp only [still, cs, sk, rises.1, Bool.not_true, Bool.not_false, Bool.and_false, Bool.false_and,
    Bool.and_self, Bool.false_eq_true, if_false, if_true]
  exact .of_pins (progress.clock cs fun b here => held.di.trans (bit b here)) _ _ _

theorem Progress.port_stays {c : Command} {e : Eeprom} {k : Nat} {n : Nvram}
    {previous value : Word} (progress : Progress c e k n) (held : n.Held previous)
    (selected : pinCs previous) (still : pinCs value)
    (level : ¬ (pinSk value ∧ ¬ pinSk previous)) : Progress c e k (n.port value) := by
  have cs : n.cs = true := held.cs.trans selected
  have quiet : (pinSk value && !n.sk && pinCs value) = false := by
    rw [held.sk]
    cases sk : pinSk value <;> cases up : pinSk previous <;> simp_all
  rw [Nvram.port_eq]
  simp only [still, cs, Bool.not_true, Bool.and_false, Bool.false_and, Bool.false_eq_true,
    if_false]
  rw [still] at quiet
  rw [quiet]
  exact .of_pins progress _ _ _

/-- Writes while the chip is selected clock in their rising bits. -/
theorem Progress.run {c : Command} {e : Eeprom} {k : Nat} {d : Duart} {previous : Word}
    {rest : List Word} (progress : Progress c e k d.nv) (held : d.nv.Held previous)
    (selected : pinCs previous) (still : ∀ value ∈ rest, pinCs value)
    (agree : ∀ i b x, (risingBits previous rest)[i]? = some x → c.bits[k + i]? = some b → x = b) :
    ∃ d', writeOpr rest d = some ((), d') ∧
      Progress c e (k + (risingBits previous rest).length) d'.nv ∧
      d'.nv.cs = true := by
  induction rest generalizing k d previous with
  | nil => exact ⟨d, rfl, progress, held.cs.trans selected⟩
  | cons value rest ih =>
      obtain ⟨d₁, written, nv⟩ := duartWrite_opr value d
      have here := still value (by simp)
      have held₁ : d₁.nv.Held value := nv ▸ d.nv.port_held value
      have later : ∀ v ∈ rest, pinCs v := fun v mem => still v (by simp [mem])
      rw [risingBits] at agree ⊢
      by_cases rises : pinSk value ∧ ¬ pinSk previous
      · rw [if_pos rises] at agree ⊢
        have moved : Progress c e (k + 1) d₁.nv :=
          nv ▸ progress.port_rise held selected here rises fun b found => agree 0 b _ rfl found
        obtain ⟨d₂, run, end_, cs⟩ := ih moved held₁ here later fun i b x found bit =>
          agree (i + 1) b x found (by rwa [← Nat.add_assoc, Nat.add_right_comm])
        refine ⟨d₂, (Prog.bind_eq_of_run written).trans run, ?_, cs⟩
        rwa [List.length_cons, ← Nat.add_assoc, Nat.add_right_comm]
      · rw [if_neg rises] at agree ⊢
        have moved : Progress c e k d₁.nv :=
          nv ▸ progress.port_stays held selected here rises
        obtain ⟨d₂, run, end_, cs⟩ := ih moved held₁ here later agree
        exact ⟨d₂, (Prog.bind_eq_of_run written).trans run, end_, cs⟩

theorem Session.agree (s : Session) {i : Nat} {b x : Bool} (clocked : s.clocked[i]? = some x)
    (bit : s.command.bits[i]? = some b) : x = b := by
  rcases s.legal with ⟨rest, whole⟩ | ⟨rest, whole⟩
  · rw [← whole, List.getElem?_append_left (List.getElem?_eq_some_iff.mp clocked).1,
      clocked] at bit
    exact Option.some.inj bit
  · rw [← whole, List.getElem?_append_left (List.getElem?_eq_some_iff.mp bit).1, bit] at clocked
    exact (Option.some.inj clocked).symm

theorem Session.complete_iff (s : Session) :
    s.command.bits <+: s.clocked ↔ s.command.bits.length ≤ s.clocked.length := by
  constructor
  · exact List.IsPrefix.length_le
  · intro long
    rcases s.legal with short | whole
    · rw [short.eq_of_length_le long]
    · exact whole

/-- The first write of a selection begins the command, the others clock it. -/
theorem Selection.run {s : Session} {held : List Word} (selection : Selection s held) {d : Duart}
    (low : d.nv.cs = false) :
    ∃ d', writeOpr held d = some ((), d') ∧
      Progress s.command d.nv.eeprom s.clocked.length d'.nv ∧ d'.nv.cs = true := by
  cases selection with
  | mk first rest raised quiet still clocked =>
      obtain ⟨d₁, written, nv⟩ := duartWrite_opr first d
      have started : Progress s.command d.nv.eeprom 0 d₁.nv :=
        nv ▸ Progress.begin s.command low raised quiet
      have held₁ : d₁.nv.Held first := nv ▸ d.nv.port_held first
      obtain ⟨d₂, run, progress, cs⟩ := started.run held₁ raised still fun i b x found bit =>
        s.agree (by rwa [← clocked]) (by rwa [Nat.zero_add] at bit)
      rw [clocked, Nat.zero_add] at progress
      exact ⟨d₂, (Prog.bind_eq_of_run written).trans run, progress, cs⟩

theorem Progress.eeprom_eq {s : Session} {e : Eeprom} {n : Nvram}
    (progress : Progress s.command e s.clocked.length n) : n.eeprom = e.after s := by
  simp only [Eeprom.after, s.complete_iff]
  cases progress with
  | header short state count shifted eeprom =>
      have long : 9 ≤ s.command.bits.length := by simp [Command.bits, Command.msbFirst]
      rw [if_neg (by omega), eeprom]
  | reading a command full state count shifted eeprom =>
      simp [command, Eeprom.exec, eeprom]
  | writing a value command full short state count shifted addr eeprom =>
      have long : s.command.bits.length = 25 := by
        simp [command, Command.bits, Command.msbFirst, Command.data]
      rw [if_neg (by omega), eeprom]
  | done full changing state eeprom => rw [if_pos full, eeprom]

/-- The clock counts at which a data bit is shown. -/
theorem data_counts : ∀ data < 16, BitVec.ofNat 32 (data + 2) ≠ 1#32 ∧
    (2#32).sle (BitVec.ofNat 32 (data + 2)) = true ∧
    (BitVec.ofNat 32 (data + 2)).sle 17#32 = true ∧
    (BitVec.ofNat 32 (data + 2)).toNat - 2 = data := by
  decide

/-- What the output pin shows while a word is read out. -/
theorem Progress.read_eq {a : BitVec 6} {e : Eeprom} {j : Nat} {n : Nvram}
    (progress : Progress (.read a) e (9 + j) n) (inside : j ≤ 16) :
    (n.read 0#32).getLsbD 0 = readOutBit (e.words a) j := by
  cases progress with
  | header short => omega
  | writing a value command => cases command
  | done full changing => exact absurd rfl (changing a)
  | reading b command full state count shifted eeprom =>
      cases command
      have counted : n.txCount = BitVec.ofNat 32 (j + 1) := by
        rw [count]
        congr 1
        omega
      cases j with
      | zero => simp [Nvram.read, state, counted, readOutBit]
      | succ data =>
          obtain ⟨notFirst, lower, upper, place⟩ := data_counts data (by omega)
          have shown : n.read 0#32 =
              (e.words a).setWidth 32 >>> (15 - data) &&& 1#32 := by
            rw [Nvram.read, if_neg (by simp), if_pos state, counted, if_neg notFirst, lower, upper,
              place, shifted]
            rfl
          have small : data < 16 := by omega
          have bit : 16 - 1 - data = 15 - data := by omega
          have fits : 15 - data < 32 := by omega
          rw [shown, readOutBit, BitVec.getMsbD_eq_getLsbD, bit]
          simp [small, fits]

theorem Nvram.port_low {n : Nvram} {value : Word} (low : ¬ pinCs value) :
    (n.port value).eeprom = n.eeprom ∧ (n.port value).cs = false := by
  rw [Nvram.port_eq]
  simp only [low, Bool.not_false, Bool.and_false, Bool.false_and, Bool.true_and,
    Bool.false_eq_true, if_false]
  constructor
  · split <;> rfl
  · trivial

theorem writeOpr_low {idle : List Word} (low : ∀ value ∈ idle, ¬ pinCs value) (d : Duart) :
    ∃ d', writeOpr idle d = some ((), d') ∧ d'.nv.eeprom = d.nv.eeprom ∧
      (idle ≠ [] ∨ d.nv.cs = false → d'.nv.cs = false) := by
  induction idle generalizing d with
  | nil => exact ⟨d, rfl, rfl, by simp⟩
  | cons value idle ih =>
      obtain ⟨d₁, written, nv⟩ := duartWrite_opr value d
      obtain ⟨eeprom, cs⟩ := Nvram.port_low (n := d.nv) (low value (by simp))
      obtain ⟨d₂, run, same, down⟩ := ih (fun v mem => low v (by simp [mem])) d₁
      refine ⟨d₂, (Prog.bind_eq_of_run written).trans run, ?_, fun _ => down (.inr ?_)⟩
      · rw [same, nv, eeprom]
      · rw [nv, cs]

theorem writeOpr_append (first second : List Word) :
    writeOpr (first ++ second) = (do writeOpr first; writeOpr second) := by
  induction first with
  | nil => rfl
  | cons value first ih =>
      funext d
      simp only [List.cons_append, writeOpr, ih, bind_assoc]

/-- Whole sessions leave the device deselected, with the words their commands
say. -/
theorem Sessions.run {done : List Session} {writes : List Word} (sessions : Sessions done writes)
    {d : Duart} (low : d.nv.cs = false) :
    ∃ d', writeOpr writes d = some ((), d') ∧
      d'.nv.eeprom = done.foldl Eeprom.after d.nv.eeprom ∧ d'.nv.cs = false := by
  induction sessions with
  | start quiet =>
      obtain ⟨d', run, same, down⟩ := writeOpr_low quiet d
      exact ⟨d', run, same, down (.inr low)⟩
  | next ran selected dropped quiet ih =>
      obtain ⟨d₁, run₁, eeprom₁, cs₁⟩ := ih
      obtain ⟨d₂, run₂, progress, cs₂⟩ := selected.run cs₁
      obtain ⟨d₃, run₃, same, down⟩ := writeOpr_low quiet d₂
      refine ⟨d₃, ?_, ?_, down (.inl dropped)⟩
      · rw [writeOpr_append, writeOpr_append, bind_assoc, Prog.bind_eq_of_run run₁,
          Prog.bind_eq_of_run run₂, run₃]
      · rw [same, progress.eeprom_eq, eeprom₁, List.foldl_append]
        rfl

/-- The EEPROM behind the output port is a store of words with a flag: whole
sessions do what their commands say, a session under way has had its effect when
its command is complete, and the input port shows a word that is read out. -/
theorem nvram_refines_eeprom {d : Duart} (low : d.nv.cs = false) {done : List Session}
    {now : Session} {before held : List Word} (ran : Sessions done before)
    (selected : Selection now held) :
    ∃ d₁ d₂, writeOpr before d = some ((), d₁) ∧ writeOpr held d₁ = some ((), d₂) ∧
      d₁.nv.eeprom = done.foldl Eeprom.after d.nv.eeprom ∧
      d₂.nv.eeprom = d₁.nv.eeprom.after now ∧
      ∀ a, now.command = .read a → ∀ j ≤ 16, now.clocked.length = 9 + j →
        ∃ v, duartRead ipcrOffset d₂ = some (v, d₂) ∧
          v.getLsbD 2 = readOutBit (d₁.nv.eeprom.words a) j := by
  obtain ⟨d₁, run₁, eeprom₁, cs₁⟩ := ran.run low
  obtain ⟨d₂, run₂, progress, -⟩ := selected.run cs₁
  refine ⟨d₁, d₂, run₁, run₂, eeprom₁, progress.eeprom_eq, ?_⟩
  intro a command j inside clocks
  obtain ⟨v, read, bit⟩ := duartRead_ipcr d₂
  rw [command, clocks] at progress
  exact ⟨v, read, bit.trans (progress.read_eq inside)⟩

/-- The writes of a bit: `SK` low and `DI` set, then `SK` high. -/
def clockBit (b : Bool) : List Word :=
  if b then [0x30#32, 0x70#32] else [0x20#32, 0x60#32]

/-- Raise `CS` and clock bits in. -/
def clockIn (bits : List Bool) : List Word :=
  0x20#32 :: bits.flatMap clockBit

theorem risingBits_clockBit (previous : Word) (bits : List Bool) :
    risingBits previous (bits.flatMap clockBit) = bits := by
  induction bits generalizing previous with
  | nil => rfl
  | cons b bits ih => cases b <;> simp [clockBit, risingBits, pinSk, pinDi, ih]

theorem pinCs_clockBit (bits : List Bool) : ∀ value ∈ bits.flatMap clockBit, pinCs value := by
  intro value mem
  obtain ⟨b, -, inside⟩ := List.mem_flatMap.mp mem
  cases b <;> simp only [clockBit, if_true, if_false, Bool.false_eq_true, List.mem_cons,
    List.not_mem_nil, or_false] at inside <;> rcases inside with rfl | rfl <;> rfl

/-- Every session can be clocked through the port. -/
theorem selection_clockIn (s : Session) : Selection s (clockIn s.clocked) :=
  .mk _ _ rfl (by decide) (pinCs_clockBit _) (risingBits_clockBit _ _)

/-- Word 5 is written and read back up to its top bit. -/
theorem nvram_refines_eeprom_readBack :
    ∃ d₁ d₂ v,
      writeOpr (clockIn (Command.write 5#6 0x8001#16).bits ++ [0#32]) duartNew = some ((), d₁) ∧
      writeOpr (clockIn ((Command.read 5#6).bits ++ [false])) d₁ = some ((), d₂) ∧
      d₁.nv.eeprom.words 5#6 = 0x8001#16 ∧
      duartRead ipcrOffset d₂ = some (v, d₂) ∧ v.getLsbD 2 = true := by
  let written : Session := ⟨.write 5#6 0x8001#16, _, .inl (List.prefix_refl _)⟩
  let shown : Session := ⟨.read 5#6, (Command.read 5#6).bits ++ [false],
    .inr (List.prefix_append _ _)⟩
  have ran : Sessions ([] ++ [written]) ([] ++ clockIn written.clocked ++ [0#32]) :=
    .next (.start (by simp)) (selection_clockIn written) (by simp) (by simp [pinCs])
  obtain ⟨d₁, d₂, run₁, run₂, eeprom₁, -, read⟩ :=
    nvram_refines_eeprom (d := duartNew) rfl ran (selection_clockIn shown)
  obtain ⟨v, at₂, bit⟩ := read 5#6 rfl 1 (by decide) (by decide)
  have word : d₁.nv.eeprom.words 5#6 = 0x8001#16 := by
    rw [eeprom₁]
    decide
  rw [word] at bit
  exact ⟨d₁, d₂, v, run₁, run₂, word, at₂, bit.trans (by decide)⟩

end Runs

end Ncd15.Emulator
