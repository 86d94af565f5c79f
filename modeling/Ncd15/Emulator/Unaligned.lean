import Ncd15.Emulator.IcacheCoherence

/-!
# Unaligned loads and stores

The instructions LWL, LWR, SWL and SWR alone, in pairs and a load after a store, against the
big-endian definition of MIPS-I.  RAM is looked at byte by byte here: a byte lies in
shadow RAM or in DRAM, and the aligned words that the four instructions move are four
consecutive bytes of one of the two arrays.
-/

namespace Ncd15.Emulator

open Ncd15.Library

section Ram

/-- A byte of RAM: whether it belongs to shadow RAM, and its offset in the array. -/
abbrev Spot := Bool × Nat

/-- The byte of RAM at a virtual address. -/
def spot (va : Word) : Spot :=
  let pa := mipsVaToPa va
  if InShadow pa then (true, pa.toNat - 0x0EC00000) else (false, pa.toNat % 0x00400000)

/-- The word that holds a byte. -/
def align (va : Word) : Word := va &&& ~~~3#32

/-- The byte of a word at the given distance from its most significant one. -/
def byteOf (v : Word) (j : Nat) : BitVec 8 := v.extractLsb' (24 - 8 * j) 8

variable {δ : Type}

def Bus.ram (b : Bus δ) (x : Spot) : BitVec 8 :=
  if x.1 then b.shadow x.2 else b.dram x.2

/-- The bus with other contents of RAM. -/
def Bus.withRam (b : Bus δ) (ram : Spot → BitVec 8) : Bus δ :=
  { b with shadow := fun off => ram (true, off), dram := fun off => ram (false, off) }

@[simp] theorem ram_withRam (b : Bus δ) (ram : Spot → BitVec 8) : (b.withRam ram).ram = ram := by
  funext ⟨shadow, off⟩
  cases shadow <;> rfl

@[simp] theorem withRam_ram (b : Bus δ) : b.withRam b.ram = b := rfl

@[simp] theorem withRam_withRam (b : Bus δ) (ram ram' : Spot → BitVec 8) :
    (b.withRam ram).withRam ram' = b.withRam ram' := rfl

/-- The word at four consecutive bytes. -/
def ramWord (ram : Spot → BitVec 8) (x : Spot) : Word :=
  ldBe (fun off => ram (x.1, off)) x.2 .four

/-- RAM with a word stored at four consecutive bytes. -/
def putWord (ram : Spot → BitVec 8) (x : Spot) (v : Word) (y : Spot) : BitVec 8 :=
  if y.1 = x.1 then stBe (fun off => ram (x.1, off)) x.2 v .four y.2 else ram y

theorem byteOf_ramWord (ram : Spot → BitVec 8) (x : Spot) {j : Nat} (inside : j < 4) :
    byteOf (ramWord ram x) j = ram (x.1, x.2 + j) := by
  have word : (ramWord ram x).toNat = _ := toNat_word (fun off => ram (x.1, off)) x.2
  have bound0 := (ram (x.1, x.2)).isLt
  have bound1 := (ram (x.1, x.2 + 1)).isLt
  have bound2 := (ram (x.1, x.2 + 2)).isLt
  have bound3 := (ram (x.1, x.2 + 3)).isLt
  apply BitVec.eq_of_toNat_eq
  rw [byteOf, BitVec.extractLsb'_toNat, Nat.shiftRight_eq_div_pow, word]
  interval_cases j <;> simp only [Nat.reduceMul, Nat.reduceSub, Nat.add_zero] <;> omega

theorem putWord_inside (ram : Spot → BitVec 8) (x : Spot) (v : Word) {j : Nat} (inside : j < 4) :
    putWord ram x v (x.1, x.2 + j) = byteOf v j := by
  rw [putWord, if_pos rfl]
  apply BitVec.eq_of_toNat_eq
  rw [stBe_inside _ _ _ (show j < Size.four.bytes from inside), byteOf,
    BitVec.extractLsb'_toNat, Nat.shiftRight_eq_div_pow]
  simp only [Size.bytes]
  rw [show 8 * (4 - 1 - j) = 24 - 8 * j by omega]

theorem putWord_outside (ram : Spot → BitVec 8) {x y : Spot} (v : Word)
    (outside : ∀ j < 4, y ≠ (x.1, x.2 + j)) : putWord ram x v y = ram y := by
  unfold putWord
  split
  case isFalse => rfl
  case isTrue same =>
    rw [stBe_outside]
    · rw [← same]
    · by_contra inside
      simp only [Size.bytes] at inside
      exact outside (y.2 - x.2) (by omega) (Prod.ext same (by dsimp only; omega))

theorem putWord_putWord (ram : Spot → BitVec 8) (x : Spot) (v w : Word) :
    putWord (putWord ram x v) x w = putWord ram x w := by
  funext y
  by_cases inside : ∃ j < 4, y = (x.1, x.2 + j)
  · obtain ⟨j, small, rfl⟩ := inside
    rw [putWord_inside _ _ _ small, putWord_inside _ _ _ small]
  · have outside : ∀ j < 4, y ≠ (x.1, x.2 + j) := fun j small same => inside ⟨j, small, same⟩
    rw [putWord_outside _ _ outside, putWord_outside _ _ outside, putWord_outside _ _ outside]

/-- A word is determined by its bytes. -/
theorem eq_of_byteOf {v w : Word} (same : ∀ j < 4, byteOf v j = byteOf w j) : v = w := by
  ext i bound
  have byte := congrArg (·.getLsbD (i % 8)) (same (3 - i / 8) (by omega))
  simp only [byteOf, BitVec.getLsbD_extractLsb', show i % 8 < 8 by omega, decide_true,
    Bool.true_and, show 24 - 8 * (3 - i / 8) + i % 8 = i by omega] at byte
  rwa [BitVec.getLsbD_eq_getElem, BitVec.getLsbD_eq_getElem] at byte

theorem ramWord_putWord (ram : Spot → BitVec 8) (x : Spot) (v : Word) :
    ramWord (putWord ram x v) x = v := by
  apply eq_of_byteOf
  intro j inside
  rw [byteOf_ramWord _ _ inside, putWord_inside _ _ _ inside]

end Ram

section Addresses

theorem toNat_align (va : Word) : (align va).toNat = va.toNat - va.toNat % 4 := by
  rw [align, toNat_and_not_3]
  omega

theorem isRam_iff (va : Word) : IsRam (mipsVaToPa va) ↔ (mipsVaToPa va).toNat < 0x0F000000 := by
  simp only [IsRam, InShadow, BitVec.le_def, BitVec.lt_def]
  have zero : (0x0EC00000#32).toNat = 0x0EC00000 := rfl
  have one : (0x0F000000#32).toNat = 0x0F000000 := rfl
  omega

theorem inShadow_iff (pa : Word) :
    InShadow pa ↔ 0x0EC00000 ≤ pa.toNat ∧ pa.toNat < 0x0F000000 := Iff.rfl

theorem mipsVaToPa_of_word {va w : Word} (same : va.toNat / 4 = w.toNat / 4) :
    (mipsVaToPa va).toNat + w.toNat % 4 = (mipsVaToPa w).toNat + va.toNat % 4 := by
  rw [toNat_mipsVaToPa, toNat_mipsVaToPa]
  repeat' split
  all_goals omega

/-- The bytes of one word lie side by side. -/
theorem spot_of_word {va w : Word} (same : va.toNat / 4 = w.toNat / 4) :
    spot va = ((spot (align w)).1, (spot (align w)).2 + va.toNat % 4) := by
  have aligned := toNat_align w
  have first := @mipsVaToPa_of_word va (align w) (by omega)
  have multiple := toNat_mipsVaToPa_mod (align w)
  unfold spot
  simp only [inShadow_iff]
  split
  case isTrue shadow =>
    rw [if_pos (by omega)]
    exact Prod.ext rfl (by dsimp only; omega)
  case isFalse notShadow =>
    rw [if_neg (by omega)]
    exact Prod.ext rfl (by dsimp only; omega)

theorem isRam_of_word {va w : Word} (same : va.toNat / 4 = w.toNat / 4)
    (ram : IsRam (mipsVaToPa w)) : IsRam (mipsVaToPa va) := by
  have place := mipsVaToPa_of_word same
  have first := toNat_mipsVaToPa_mod va
  have second := toNat_mipsVaToPa_mod w
  rw [isRam_iff] at ram ⊢
  omega

end Addresses

section Words

variable {δ : Type} {b : Bus δ} {va : Word}

/-- The byte at the address is a cell of the RAM arrays: the word around it is not one of
those that the emulator answers itself. -/
structure Bus.InRam (b : Bus δ) (va : Word) : Prop where
  ram : IsRam (mipsVaToPa va)
  plain : shadowIntercept b (mipsVaToPa (align va)) .four = none

theorem Bus.InRam.isRam (inRam : b.InRam va) : IsRam (mipsVaToPa (align va)) :=
  isRam_of_word (by rw [toNat_align]; omega) inRam.ram

theorem Bus.InRam.withRam (inRam : b.InRam va) (ram : Spot → BitVec 8) :
    (b.withRam ram).InRam va := by
  refine ⟨inRam.ram, ?_⟩
  have same := shadowIntercept_isNone b (fun off => ram (true, off)) (mipsVaToPa (align va)) .four
  rw [inRam.plain] at same
  exact Option.isNone_iff_eq_none.mp same

variable [Mmio δ]

theorem busRead_ram (inRam : b.InRam va) :
    busRead b (align va) .four = (ramWord b.ram (spot (align va)), b, false) := by
  rcases inRam.isRam with shadow | dram
  · have read : busRead b (align va) .four = _ :=
      (if_neg (not_inRom_of_lt shadow.2)).trans (if_pos shadow)
    rw [read, inRam.plain]
    simp only [ramWord, spot, if_pos shadow, Bus.ram, if_true, BitVec.toNat_sub_of_le shadow.1]
    rfl
  · have read : busRead b (align va) .four = _ :=
      (if_neg (not_inRom_of_lt (lt_of_dram dram))).trans ((if_neg (not_inShadow_of_lt dram)).trans
        ((if_neg (not_inFlash_of_lt (lt_of_dram dram))).trans (if_pos dram)))
    rw [read, toNat_dramOffset]
    simp only [ramWord, spot, if_neg (not_inShadow_of_lt dram), Bus.ram, Bool.false_eq_true,
      if_false]

theorem busWrite_ram (attached : b.cacheIsolated = false) (inRam : b.InRam va) (v : Word) :
    busWrite b (align va) v .four = b.withRam (putWord b.ram (spot (align va)) v) := by
  have reaches : ¬ b.cacheIsolated = true := by rw [attached]; decide
  rcases inRam.isRam with shadow | dram
  · have write : busWrite b (align va) v .four = _ :=
      (if_neg (not_inRom_of_lt shadow.2)).trans ((if_neg reaches).trans (if_pos shadow))
    rw [write]
    simp [Bus.withRam, putWord, spot, if_pos shadow, Bus.ram, BitVec.toNat_sub_of_le shadow.1]
  · have write : busWrite b (align va) v .four = _ :=
      (if_neg (not_inRom_of_lt (lt_of_dram dram))).trans ((if_neg reaches).trans
        ((if_neg (not_inShadow_of_lt dram)).trans (if_pos dram)))
    rw [write, toNat_dramOffset]
    simp [Bus.withRam, putWord, spot, if_neg (not_inShadow_of_lt dram), Bus.ram]

end Words

/-- The left instructions LWL and SWL, or the right ones LWR and SWR. -/
inductive Side
  | left
  | right
  deriving DecidableEq, Repr

namespace Side

def other : Side → Side
  | left => right
  | right => left

def loadCode : Side → Nat
  | left => 0x22
  | right => 0x26

def storeCode : Side → Nat
  | left => 0x2A
  | right => 0x2E

/-- The bytes of the register that MIPS-I names at an address with the low bits `n`. -/
def Names (n : Nat) : Side → Nat → Prop
  | left, j => n + j ≤ 3
  | right, j => 3 ≤ n + j

instance (n j : Nat) : (side : Side) → Decidable (side.Names n j)
  | left => Nat.decLe _ _
  | right => Nat.decLe _ _

/-- Where the datum begins whose bytes an instruction at this address names. -/
def base (a : Word) : Side → Word
  | left => a
  | right => a - 3#32

/-- The address of an instruction of the pair for the datum at `a`. -/
def addr (a : Word) : Side → Word
  | left => a
  | right => a + 3#32

/-- The register after a load, as the interpreter computes it. -/
def loaded (n : Nat) (r w : Word) : Side → Word
  | left => (r &&& lowMask (n * 8)) ||| (w <<< (24 - n * 8))
  | right => (r &&& highMask ((3 - n) * 8)) ||| (w >>> ((3 - n) * 8))

/-- The word after a store, as the interpreter computes it. -/
def stored (n : Nat) (r w : Word) : Side → Word
  | left => (w &&& ~~~lowMask (n * 8)) ||| (r >>> (24 - n * 8))
  | right => (w &&& highMask ((3 - n) * 8)) ||| (r <<< ((3 - n) * 8))

end Side

section Steps

variable {δ : Type} [Mmio δ] {cpu : Cpu δ} {insn a : Word} {side : Side}

theorem toNat_and_3 (a : Word) : (a &&& 3#32).toNat = a.toNat % 4 := by
  rw [BitVec.toNat_and]
  exact Nat.and_two_pow_sub_one_eq_mod a.toNat 2

/-- What a load of the interpreter does. -/
theorem execute_load (pc : Word) (code : op insn = side.loadCode) (here : cpu.address insn = a)
    (inRam : cpu.bus.InRam a) :
    cpu.execute pc insn =
      cpu.wrReg (rt insn) (side.loaded (a.toNat % 4) (cpu.r (rt insn))
        (ramWord cpu.bus.ram (spot (align a)))) := by
  have read : cpu.load (align a) .four = (ramWord cpu.bus.ram (spot (align a)), cpu) := by
    rw [Cpu.load, busRead_ram inRam]
    rfl
  rw [← toNat_and_3]
  cases side <;> simp only [Side.loadCode] at code <;>
    simp only [Cpu.execute, code, here, Side.loaded] <;> rw [← align, read] <;> rfl

/-- What a store of the interpreter does. -/
theorem execute_store (pc : Word) (code : op insn = side.storeCode) (here : cpu.address insn = a)
    (inRam : cpu.bus.InRam a) (attached : cpu.bus.cacheIsolated = false) :
    cpu.execute pc insn =
      { cpu with bus := cpu.bus.withRam (putWord cpu.bus.ram (spot (align a))
          (side.stored (a.toNat % 4) (cpu.r (rt insn))
            (ramWord cpu.bus.ram (spot (align a))))) } := by
  have read : cpu.load (align a) .four = (ramWord cpu.bus.ram (spot (align a)), cpu) := by
    rw [Cpu.load, busRead_ram inRam]
    rfl
  rw [← toNat_and_3, ← busWrite_ram attached inRam]
  cases side <;> simp only [Side.storeCode] at code <;>
    simp only [Cpu.execute, code, here, Side.stored] <;> rw [← align, read] <;> rfl

end Steps

section Definition

variable {δ : Type} [Mmio δ]

/-- The byte of RAM at a distance from an address. -/
def spotAt (a : Word) (j : Nat) : Spot := spot (a + BitVec.ofNat 32 j)

/-- The named bytes of `v` have been stored from `base` on, and nothing else has changed. -/
structure Stores (cpu after : Cpu δ) (base : Word) (named : Nat → Prop) (v : Word) : Prop where
  stored : ∀ j < 4, named j → after.bus.ram (spotAt base j) = byteOf v j
  kept : ∀ x, (∀ j < 4, named j → x ≠ spotAt base j) → after.bus.ram x = cpu.bus.ram x
  rest : after = { cpu with bus := cpu.bus.withRam after.bus.ram }

/-- The four instructions alone, their pairs (`first` is the instruction that goes first)
and a load pair after a store pair. -/
inductive Unaligned
  | load (side : Side)
  | store (side : Side)
  | loadPair (first : Side)
  | storePair (first : Side)
  | storeThenLoad (stores loads : Side)

namespace Unaligned

/-- How many bytes from the address on the access concerns. -/
def span : Unaligned → Nat
  | load _ => 1
  | store _ => 1
  | _ => 4

/-- A load merges the named bytes of memory into the register. -/
def Loads (cpu : Cpu δ) (a : Word) (side : Side) : Prop :=
  ∀ pc insn, op insn = side.loadCode → cpu.address insn = a →
    ∃ v, cpu.execute pc insn = cpu.wrReg (rt insn) v ∧
      ∀ j < 4, byteOf v j =
        if side.Names (a.toNat % 4) j then cpu.bus.ram (spotAt (side.base a) j)
        else byteOf (cpu.r (rt insn)) j

def Stored (cpu : Cpu δ) (a : Word) (side : Side) : Prop :=
  ∀ pc insn, op insn = side.storeCode → cpu.address insn = a →
    Stores cpu (cpu.execute pc insn) (side.base a) (side.Names (a.toNat % 4)) (cpu.r (rt insn))

/-- A load pair for the register of the first instruction, each address taken when its
instruction is reached. -/
def LoadsPair (cpu : Cpu δ) (a : Word) (first : Side) : Prop :=
  ∀ pc insn insn', op insn = first.loadCode → op insn' = first.other.loadCode →
    rt insn' = rt insn → cpu.address insn = first.addr a →
    (cpu.execute pc insn).address insn' = first.other.addr a →
    ∃ v, (cpu.execute pc insn).execute (pc + 4) insn' = cpu.wrReg (rt insn) v ∧
      ∀ j < 4, byteOf v j = cpu.bus.ram (spotAt a j)

def StoresPair (cpu : Cpu δ) (a : Word) (first : Side) : Prop :=
  ∀ pc insn insn', op insn = first.storeCode → op insn' = first.other.storeCode →
    rt insn' = rt insn → cpu.address insn = first.addr a →
    (cpu.execute pc insn).address insn' = first.other.addr a →
    Stores cpu ((cpu.execute pc insn).execute (pc + 4) insn') a (fun _ => True) (cpu.r (rt insn))

/-- A load pair after a store pair leaves the stored register in the loaded one. -/
def LoadsStored (cpu : Cpu δ) (a : Word) (stores loads : Side) : Prop :=
  ∀ pc insn insn' again again', op insn = stores.storeCode → op insn' = stores.other.storeCode →
    rt insn' = rt insn → cpu.address insn = stores.addr a →
    (cpu.execute pc insn).address insn' = stores.other.addr a →
    op again = loads.loadCode → op again' = loads.other.loadCode →
    rt again' = rt again → rt again ≠ 0 →
    let between := (cpu.execute pc insn).execute (pc + 4) insn'
    between.address again = loads.addr a →
    (between.execute (pc + 8) again).address again' = loads.other.addr a →
    ((between.execute (pc + 8) again).execute (pc + 12) again').r (rt again) = cpu.r (rt insn)

/-- What MIPS-I says of the access at an address. -/
def Follows (cpu : Cpu δ) (a : Word) : Unaligned → Prop
  | load side => Loads cpu a side
  | store side => Stored cpu a side
  | loadPair first => LoadsPair cpu a first
  | storePair first => StoresPair cpu a first
  | storeThenLoad stores loads => LoadsStored cpu a stores loads

/-- The accesses that the interpreter gets right at an address with the low bits `n`. -/
def Right (n : Nat) : Unaligned → Prop
  | load side => side = .right
  | store side => side = .right ∧ n = 3
  | loadPair first => first = .left ∧ n = 0
  | storePair first => first = .left ∧ n = 0
  | storeThenLoad stores loads => stores = .left ∧ loads = .left ∧ n = 0

instance (n : Nat) : (access : Unaligned) → Decidable (access.Right n)
  | load _ => instDecidableEqSide _ _
  | store _ => instDecidableAnd
  | loadPair _ => instDecidableAnd
  | storePair _ => instDecidableAnd
  | storeThenLoad _ _ => instDecidableAnd

end Unaligned

/-- The machine with other contents of RAM and of the registers. -/
def Cpu.holding (cpu : Cpu δ) (ram : Spot → BitVec 8) (r : Reg → Word) : Cpu δ :=
  { cpu with r, bus := cpu.bus.withRam ram }

/-- The access follows the architecture whatever RAM and the registers hold. -/
def Cpu.UnalignedMeets (cpu : Cpu δ) (access : Unaligned) (a : Word) : Prop :=
  ∀ ram r, access.Follows (cpu.holding ram r) a

end Definition

section Places

variable {δ : Type} {b : Bus δ} {a : Word} {side : Side}

namespace Side

/-- The byte of the aligned word that a named byte of the register goes with. -/
def place (n j : Nat) : Side → Nat
  | left => n + j
  | right => n + j - 3

/-- The low bits of the address of an instruction of a pair. -/
def low (n : Nat) : Side → Nat
  | left => n
  | right => (n + 3) % 4

end Side

theorem place_lt {n j : Nat} (small : n < 4) (inside : j < 4) (named : side.Names n j) :
    side.place n j < 4 := by
  cases side <;> simp only [Side.Names, Side.place] at named ⊢ <;> omega

theorem spotAt_named {j : Nat} (inside : j < 4) (named : side.Names (a.toNat % 4) j) :
    spotAt (side.base a) j =
      ((spot (align a)).1, (spot (align a)).2 + side.place (a.toNat % 4) j) := by
  have bound := a.isLt
  have number : (side.base a + BitVec.ofNat 32 j).toNat =
      a.toNat - a.toNat % 4 + side.place (a.toNat % 4) j := by
    cases side with
    | left =>
        simp only [Side.Names, Side.place, Side.base, BitVec.toNat_add, BitVec.toNat_ofNat]
          at named ⊢
        omega
    | right =>
        simp only [Side.Names, Side.place, Side.base, BitVec.toNat_add, BitVec.toNat_sub,
          BitVec.toNat_ofNat] at named ⊢
        omega
  have small := place_lt (Nat.mod_lt _ (by decide)) inside named
  rw [spotAt, spot_of_word (w := a) (by omega), number]
  exact Prod.ext rfl (by dsimp only; omega)

/-- A named byte of memory is a byte of the aligned word. -/
theorem ram_named (ram : Spot → BitVec 8) {j : Nat} (inside : j < 4)
    (named : side.Names (a.toNat % 4) j) :
    ram (spotAt (side.base a) j) =
      byteOf (ramWord ram (spot (align a))) (side.place (a.toNat % 4) j) := by
  rw [spotAt_named inside named,
    byteOf_ramWord _ _ (place_lt (Nat.mod_lt _ (by decide)) inside named)]

/-- In RAM the addresses of a datum do not wrap around. -/
theorem toNat_addr (inRam : IsRam (mipsVaToPa a)) : a.toNat + 3 < 2 ^ 32 := by
  rw [isRam_iff, toNat_mipsVaToPa] at inRam
  have bound := a.isLt
  split at inRam <;> omega

theorem toNat_right (inRam : IsRam (mipsVaToPa a)) : (Side.right.addr a).toNat = a.toNat + 3 := by
  have small := toNat_addr inRam
  simp only [Side.addr, BitVec.toNat_add, BitVec.toNat_ofNat]
  omega

theorem addr_low (inRam : IsRam (mipsVaToPa a)) :
    (side.addr a).toNat % 4 = side.low (a.toNat % 4) := by
  cases side with
  | left => rfl
  | right =>
      rw [toNat_right inRam, Side.low]
      omega

/-- An aligned datum lies in one word. -/
theorem align_of_aligned (inRam : IsRam (mipsVaToPa a)) (aligned : a.toNat % 4 = 0) :
    align (side.addr a) = align a := by
  apply BitVec.eq_of_toNat_eq
  rw [toNat_align, toNat_align]
  cases side with
  | left => rfl
  | right =>
      rw [toNat_right inRam]
      omega

/-- Consecutive words of RAM lie apart, also where the DRAM is seen a second time. -/
theorem spot_ne_of_next {v w : Word} (behind : (mipsVaToPa w).toNat = (mipsVaToPa v).toNat + 4)
    {i j : Nat} (first : i < 4) (second : j < 4) :
    ((spot w).1, (spot w).2 + i) ≠ ((spot v).1, (spot v).2 + j) := by
  intro same
  have bank := congrArg Prod.fst same
  have offset := congrArg Prod.snd same
  by_cases shadowW : InShadow (mipsVaToPa w) <;> by_cases shadowV : InShadow (mipsVaToPa v) <;>
    simp only [spot, shadowW, shadowV, if_true, if_false, reduceCtorEq] at bank offset <;>
    simp only [inShadow_iff] at shadowW shadowV <;> omega

theorem next_word (inRam : IsRam (mipsVaToPa a)) (unaligned : a.toNat % 4 ≠ 0) :
    (mipsVaToPa (align (Side.right.addr a))).toNat =
      (mipsVaToPa (align (Side.left.addr a))).toNat + 4 := by
  have place := toNat_right inRam
  rw [isRam_iff, toNat_mipsVaToPa] at inRam
  rw [toNat_mipsVaToPa, toNat_mipsVaToPa, toNat_align, toNat_align, place, Side.addr]
  split at inRam
  · omega
  split at inRam
  · rw [if_neg (by omega), if_pos (by omega), if_neg (by omega), if_pos (by omega)]
    omega
  split at inRam
  · rw [if_neg (by omega), if_neg (by omega), if_pos (by omega), if_neg (by omega),
      if_neg (by omega), if_pos (by omega)]
    omega
  · rw [if_neg (by omega), if_neg (by omega), if_neg (by omega), if_neg (by omega),
      if_neg (by omega), if_neg (by omega)]
    omega

/-- The two words of an unaligned datum lie apart. -/
theorem words_apart (inRam : IsRam (mipsVaToPa a)) (unaligned : a.toNat % 4 ≠ 0) {i j : Nat}
    (first : i < 4) (second : j < 4) :
    ((spot (align (side.other.addr a))).1, (spot (align (side.other.addr a))).2 + i) ≠
      ((spot (align (side.addr a))).1, (spot (align (side.addr a))).2 + j) := by
  have behind := next_word inRam unaligned
  cases side with
  | left => exact spot_ne_of_next behind first second
  | right => exact (spot_ne_of_next behind second first).symm

/-- The bytes of a datum, in the word of the side that names them. -/
theorem ram_datum (ram : Spot → BitVec 8) (inRam : IsRam (mipsVaToPa a)) {j : Nat} (inside : j < 4)
    (named : side.Names (side.low (a.toNat % 4)) j) :
    ram (spotAt a j) = byteOf (ramWord ram (spot (align (side.addr a))))
      (side.place (side.low (a.toNat % 4)) j) := by
  have base : side.base (side.addr a) = a := by
    cases side with
    | left => rfl
    | right => exact BitVec.add_sub_cancel a 3#32
  rw [← addr_low inRam] at named ⊢
  rw [← ram_named ram inside named, base]

end Places

section Pairs

variable {δ : Type} {cpu : Cpu δ} {insn insn' a pc pc' : Word} {first : Side}

@[simp] theorem wrReg_bus (cpu : Cpu δ) (i : Reg) (v : Word) : (cpu.wrReg i v).bus = cpu.bus := by
  unfold Cpu.wrReg
  split <;> rfl

theorem wrReg_wrReg (i : Reg) (v w : Word) : (cpu.wrReg i v).wrReg i w = cpu.wrReg i w := by
  by_cases nonzero : i ≠ 0
  · simp only [Cpu.wrReg, if_pos nonzero, Function.update_idem]
  · simp only [Cpu.wrReg, if_neg nonzero]

/-- The word that an instruction of a pair accesses. -/
def pairWord (ram : Spot → BitVec 8) (a : Word) (side : Side) : Word :=
  ramWord ram (spot (align (side.addr a)))

/-- The register after a load pair. -/
def pairLoaded (ram : Spot → BitVec 8) (a r : Word) (first : Side) : Word :=
  first.other.loaded (first.other.low (a.toNat % 4))
    (first.loaded (first.low (a.toNat % 4)) r (pairWord ram a first)) (pairWord ram a first.other)

/-- RAM after one store of a pair. -/
def pairPut (ram : Spot → BitVec 8) (a r : Word) (side : Side) : Spot → BitVec 8 :=
  putWord ram (spot (align (side.addr a)))
    (side.stored (side.low (a.toNat % 4)) r (pairWord ram a side))

variable [Mmio δ]

theorem loadPair_run (code : op insn = first.loadCode) (code' : op insn' = first.other.loadCode)
    (same : rt insn' = rt insn) (here : cpu.address insn = first.addr a)
    (there : (cpu.execute pc insn).address insn' = first.other.addr a)
    (inRam : ∀ side : Side, cpu.bus.InRam (side.addr a)) :
    (cpu.execute pc insn).execute pc' insn' =
      cpu.wrReg (rt insn) (pairLoaded cpu.bus.ram a (cpu.r (rt insn)) first) := by
  have start : IsRam (mipsVaToPa a) := (inRam .left).ram
  have step := execute_load pc code here (inRam first)
  rw [step] at there ⊢
  rw [execute_load pc' code' there (by rw [wrReg_bus]; exact inRam first.other), same,
    wrReg_wrReg, wrReg_bus, addr_low start, addr_low start]
  by_cases nonzero : rt insn ≠ 0
  · rw [wrReg_self _ nonzero]
    rfl
  · rw [Cpu.wrReg, if_neg nonzero, Cpu.wrReg, if_neg nonzero]

theorem storePair_run (pc' : Word) (code : op insn = first.storeCode)
    (code' : op insn' = first.other.storeCode)
    (same : rt insn' = rt insn) (here : cpu.address insn = first.addr a)
    (there : (cpu.execute pc insn).address insn' = first.other.addr a)
    (inRam : ∀ side : Side, cpu.bus.InRam (side.addr a))
    (attached : cpu.bus.cacheIsolated = false) :
    (cpu.execute pc insn).execute pc' insn' =
      { cpu with
        bus := cpu.bus.withRam (pairPut (pairPut cpu.bus.ram a (cpu.r (rt insn)) first) a
          (cpu.r (rt insn)) first.other) } := by
  have start : IsRam (mipsVaToPa a) := (inRam .left).ram
  have step := execute_store pc code here (inRam first) attached
  rw [step] at there ⊢
  rw [execute_store pc' code' there ((inRam first.other).withRam _) attached, same,
    addr_low start, addr_low start]
  simp only [ram_withRam, withRam_withRam, pairPut, pairWord]

end Pairs

section Right

variable {δ : Type} {cpu : Cpu δ} {a : Word}

/-- Storing a word stores its bytes. -/
theorem stores_putWord {after : Cpu δ} {named : Nat → Prop} {v : Word} {x : Spot}
    (run : after = { cpu with bus := cpu.bus.withRam (putWord cpu.bus.ram x v) })
    (base : Word) (places : ∀ j < 4, spotAt base j = (x.1, x.2 + j)) (all : ∀ j < 4, named j) :
    Stores cpu after base named v where
  stored j inside _ := by
    rw [run, places j inside]
    simp only [ram_withRam]
    exact putWord_inside _ _ _ inside
  kept y apart := by
    rw [run]
    simp only [ram_withRam]
    refine putWord_outside _ _ fun j inside => ?_
    rw [← places j inside]
    exact apart j inside (all j inside)
  rest := by rw [run]; simp only [ram_withRam]

theorem getLsbD_byteOf {v : Word} {i j : Nat} (bound : i < 8) :
    (byteOf v j).getLsbD i = v.getLsbD (24 - 8 * j + i) := by
  rw [byteOf, BitVec.getLsbD_extractLsb', decide_eq_true bound, Bool.true_and]

theorem getLsbD_highMask {shift i : Nat} (bound : i < 32) :
    (highMask shift).getLsbD i = decide (32 - shift ≤ i) := by
  unfold highMask
  split
  case isTrue zero =>
    rw [decide_eq_false (by omega)]
    exact BitVec.getLsbD_zero
  case isFalse =>
    have ones : (0xFFFFFFFF#32).getLsbD (i - (32 - shift)) = true := by
      rw [show 0xFFFFFFFF#32 = BitVec.allOnes 32 by decide, BitVec.getLsbD_allOnes]
      exact decide_eq_true (by omega)
    rw [BitVec.getLsbD_shiftLeft, ones, decide_eq_true bound, Bool.and_true, Bool.true_and,
      ← decide_not]
    exact decide_eq_decide.mpr Nat.not_lt

/-- LWR merges the bytes of the architecture. -/
theorem right_load (n : Nat) (small : n < 4) (r w : Word) {j : Nat} (inside : j < 4) :
    byteOf (Side.right.loaded n r w) j =
      if Side.right.Names n j then byteOf w (Side.right.place n j) else byteOf r j := by
  apply BitVec.eq_of_getLsbD_eq
  intro i bound
  have shifted : (3 - n) * 8 + (24 - 8 * j + i) = 48 - 8 * (n + j) + i := by omega
  rw [getLsbD_byteOf bound, Side.loaded, BitVec.getLsbD_or, BitVec.getLsbD_and,
    BitVec.getLsbD_ushiftRight, getLsbD_highMask (by omega), shifted]
  split
  case isTrue named =>
    change 3 ≤ n + j at named
    rw [getLsbD_byteOf bound, Side.place, decide_eq_false (by omega), Bool.and_false,
      Bool.false_or, show 24 - 8 * (n + j - 3) = 48 - 8 * (n + j) by omega]
  case isFalse unnamed =>
    change ¬ 3 ≤ n + j at unnamed
    rw [getLsbD_byteOf bound, decide_eq_true (by omega), Bool.and_true,
      BitVec.getLsbD_of_ge w _ (by omega), Bool.or_false]

variable [Mmio δ]

theorem right_load_follows (cpu : Cpu δ) (inRam : cpu.bus.InRam a) :
    Unaligned.Loads cpu a .right := by
  intro pc insn code here
  refine ⟨_, execute_load pc code here inRam, fun j inside => ?_⟩
  rw [right_load _ (Nat.mod_lt _ (by decide)) _ _ inside]
  split
  case isTrue named => exact (ram_named cpu.bus.ram inside named).symm
  case isFalse => rfl

/-- SWR at the last byte of a word is SW. -/
theorem right_store_follows (cpu : Cpu δ) (inRam : cpu.bus.InRam a)
    (attached : cpu.bus.cacheIsolated = false) (last : a.toNat % 4 = 3) :
    Unaligned.Stored cpu a .right := by
  intro pc insn code here
  have run := execute_store pc code here inRam attached
  have whole (w r : Word) : Side.right.stored 3 r w = r := by simp [Side.stored, highMask]
  rw [last, whole] at run
  refine stores_putWord run _ (fun j inside => ?_) fun j _ => ?_
  · have named : Side.right.Names (a.toNat % 4) j := last ▸ Nat.le_add_right 3 j
    rw [spotAt_named inside named, last, Side.place, Nat.add_sub_cancel_left]
  · rw [last]
    exact Nat.le_add_right 3 j

theorem spotAt_aligned (aligned : a.toNat % 4 = 0) {j : Nat} (inside : j < 4) :
    spotAt a j = ((spot (align a)).1, (spot (align a)).2 + j) := by
  have named : Side.left.Names (a.toNat % 4) j := by
    rw [aligned]
    exact (Nat.zero_add j).trans_le (Nat.le_of_lt_succ inside)
  have place := spotAt_named inside named
  rwa [aligned, Side.place, Nat.zero_add] at place

/-- At an aligned address LWR comes last and loads the whole word. -/
theorem pairLoaded_aligned (inRam : IsRam (mipsVaToPa a)) (aligned : a.toNat % 4 = 0)
    (ram : Spot → BitVec 8) (r : Word) :
    pairLoaded ram a r .left = ramWord ram (spot (align a)) := by
  have last (r w : Word) : Side.left.other.loaded (Side.left.other.low 0) r w = w := by
    simp [Side.other, Side.loaded, Side.low, highMask]
  rw [pairLoaded, aligned, last, pairWord, align_of_aligned inRam aligned]

/-- At an aligned address SWR comes last and stores the whole word. -/
theorem pairPut_aligned (inRam : IsRam (mipsVaToPa a)) (aligned : a.toNat % 4 = 0)
    (ram : Spot → BitVec 8) (r : Word) :
    pairPut (pairPut ram a r .left) a r Side.left.other = putWord ram (spot (align a)) r := by
  have last (r w : Word) : Side.left.other.stored (Side.left.other.low 0) r w = r := by
    simp [Side.other, Side.stored, Side.low, highMask]
  rw [pairPut, aligned, last, pairPut, align_of_aligned inRam aligned, align_of_aligned inRam aligned,
    putWord_putWord]

theorem loadPair_follows (cpu : Cpu δ) (inRam : ∀ side : Side, cpu.bus.InRam (side.addr a))
    (aligned : a.toNat % 4 = 0) : Unaligned.LoadsPair cpu a .left := by
  intro pc insn insn' code code' same here there
  refine ⟨_, loadPair_run code code' same here there inRam, fun j inside => ?_⟩
  have start : IsRam (mipsVaToPa a) := (inRam .left).ram
  rw [pairLoaded_aligned start aligned, spotAt_aligned aligned inside,
    byteOf_ramWord _ _ inside]

theorem storePair_follows (cpu : Cpu δ) (inRam : ∀ side : Side, cpu.bus.InRam (side.addr a))
    (attached : cpu.bus.cacheIsolated = false) (aligned : a.toNat % 4 = 0) :
    Unaligned.StoresPair cpu a .left := by
  intro pc insn insn' code code' same here there
  have start : IsRam (mipsVaToPa a) := (inRam .left).ram
  have run := storePair_run (pc + 4) code code' same here there inRam attached
  rw [pairPut_aligned start aligned] at run
  exact stores_putWord run a (fun j inside => spotAt_aligned aligned inside) fun _ _ => trivial

theorem loadsStored_follows (cpu : Cpu δ) (inRam : ∀ side : Side, cpu.bus.InRam (side.addr a))
    (attached : cpu.bus.cacheIsolated = false) (aligned : a.toNat % 4 = 0) :
    Unaligned.LoadsStored cpu a .left .left := by
  intro pc insn insn' again again' code code' same here there code2 code2' same2 nonzero between
    here2 there2
  have start : IsRam (mipsVaToPa a) := (inRam .left).ram
  have run : between = _ := storePair_run (pc + 4) code code' same here there inRam attached
  rw [pairPut_aligned start aligned] at run
  have inRam' : ∀ side : Side, between.bus.InRam (side.addr a) := by
    intro side
    rw [run]
    exact (inRam side).withRam _
  rw [loadPair_run code2 code2' same2 here2 there2 inRam', wrReg_self _ nonzero,
    pairLoaded_aligned start aligned, run, ram_withRam, ramWord_putWord]

end Right

section Wrong

variable {δ : Type} {cpu : Cpu δ} {a : Word} {side : Side}

theorem other_other (side : Side) : side.other.other = side := by
  cases side <;> rfl

theorem pairWord_put_same (ram : Spot → BitVec 8) (a r : Word) (side : Side) :
    pairWord (pairPut ram a r side) a side =
      side.stored (side.low (a.toNat % 4)) r (pairWord ram a side) :=
  ramWord_putWord _ _ _

theorem pairWord_put_other (inRam : IsRam (mipsVaToPa a)) (unaligned : a.toNat % 4 ≠ 0)
    (ram : Spot → BitVec 8) (r : Word) (side : Side) :
    pairWord (pairPut ram a r side) a side.other = pairWord ram a side.other := by
  apply eq_of_byteOf
  intro j inside
  rw [pairWord, pairWord, byteOf_ramWord _ _ inside, byteOf_ramWord _ _ inside, pairPut,
    putWord_outside]
  exact fun i small => words_apart inRam unaligned inside small

/-- The contents of RAM that shows what is wrong: every word is `0x01020304`. -/
def probeRam (x : Spot) : BitVec 8 := BitVec.ofNat 8 (x.2 % 4 + 1)

/-- The address in register 4, and a word in register 5. -/
def probeRegs (a : Word) (i : Reg) : Word :=
  if i = 4 then a else if i = 5 then 0x05060708#32 else 0

namespace Side

/-- `lwl $a1,0($a0)` and `lwr $a1,3($a0)`. -/
def probeLoad : Side → Word
  | left => 0x88850000#32
  | right => 0x98850003#32

/-- `lwl $a2,0($a0)` and `lwr $a2,3($a0)`. -/
def probeAgain : Side → Word
  | left => 0x88860000#32
  | right => 0x98860003#32

/-- `swl $a1,0($a0)` and `swr $a1,3($a0)`. -/
def probeStore : Side → Word
  | left => 0xA8850000#32
  | right => 0xB8850003#32

def offset : Side → Word
  | left => 0
  | right => 3

theorem probeLoad_fields (side : Side) :
    op side.probeLoad = side.loadCode ∧ rt side.probeLoad = 5 ∧
      rs side.probeLoad = 4 ∧ simm side.probeLoad = side.offset := by
  cases side <;> decide

theorem probeAgain_fields (side : Side) :
    op side.probeAgain = side.loadCode ∧ rt side.probeAgain = 6 ∧
      rs side.probeAgain = 4 ∧ simm side.probeAgain = side.offset := by
  cases side <;> decide

theorem probeStore_fields (side : Side) :
    op side.probeStore = side.storeCode ∧ rt side.probeStore = 5 ∧
      rs side.probeStore = 4 ∧ simm side.probeStore = side.offset := by
  cases side <;> decide

end Side

theorem probe_address {insn : Word} (base : cpu.r 4 = a) (register : rs insn = 4)
    (offset : simm insn = side.offset) : cpu.address insn = side.addr a := by
  rw [Cpu.address, register, offset, base]
  cases side with
  | left => exact BitVec.add_zero a
  | right => rfl

theorem ramWord_probe (va : Word) : ramWord probeRam (spot (align va)) = 0x01020304#32 := by
  have aligned : (spot (align va)).2 % 4 = 0 := by
    have multiple := toNat_mipsVaToPa_mod (align va)
    have place := toNat_align va
    unfold spot
    dsimp only
    split <;> omega
  apply eq_of_byteOf
  intro j inside
  rw [byteOf_ramWord _ _ inside, probeRam, show ((spot (align va)).2 + j) % 4 = j by omega]
  interval_cases j <;> decide

/-- The word of a side after a store pair in the probe. -/
def probeStored (n : Nat) (stores side : Side) : Word :=
  if n = 0 then
    stores.other.stored (stores.other.low 0) 0x05060708#32
      (stores.stored (stores.low 0) 0x05060708#32 0x01020304#32)
  else side.stored (side.low n) 0x05060708#32 0x01020304#32

theorem pairWord_probe (inRam : IsRam (mipsVaToPa a)) (stores side : Side) :
    pairWord (pairPut (pairPut probeRam a 0x05060708#32 stores) a 0x05060708#32 stores.other) a
      side = probeStored (a.toNat % 4) stores side := by
  have word (side : Side) : pairWord probeRam a side = 0x01020304#32 := ramWord_probe _
  unfold probeStored
  split
  case isTrue aligned =>
    have oneWord (ram : Spot → BitVec 8) (first second : Side) :
        pairWord ram a first = pairWord ram a second := by
      rw [pairWord, pairWord, align_of_aligned inRam aligned, align_of_aligned inRam aligned]
    rw [oneWord _ side stores.other, pairWord_put_same, oneWord _ stores.other stores,
      pairWord_put_same, word, aligned]
  case isFalse unaligned =>
    by_cases same : side = stores
    · have kept := pairWord_put_other inRam unaligned
        (pairPut probeRam a 0x05060708#32 stores) 0x05060708#32 stores.other
      rw [other_other] at kept
      rw [same, kept, pairWord_put_same, word]
    · have isOther : side = stores.other := by cases side <;> cases stores <;> trivial
      rw [isOther, pairWord_put_same, pairWord_put_other inRam unaligned, word]

/-- What each access makes of the probe is wrong at the low bits where it is. -/
theorem probe_load_wrong : ∀ n < 4, ¬ ∀ j < 4,
    byteOf (Side.left.loaded n 0x05060708#32 0x01020304#32) j =
      if Side.left.Names n j then byteOf 0x01020304#32 (Side.left.place n j)
      else byteOf 0x05060708#32 j := by
  decide +kernel

theorem probe_store_wrong (side : Side) : ∀ n < 4, ¬ (side = .right ∧ n = 3) →
    ¬ ∀ j < 4, side.Names n j →
      byteOf (side.stored n 0x05060708#32 0x01020304#32) (side.place n j) =
        byteOf 0x05060708#32 j := by
  cases side <;> decide +kernel

theorem probe_loadPair_wrong (first : Side) : ∀ n < 4, ¬ (first = .left ∧ n = 0) →
    ¬ ∀ j < 4, byteOf (first.other.loaded (first.other.low n)
      (first.loaded (first.low n) 0x05060708#32 0x01020304#32) 0x01020304#32) j =
        byteOf 0x01020304#32 ((n + j) % 4) := by
  cases first <;> decide +kernel

theorem probe_storePair_wrong (first : Side) : ∀ n < 4, ¬ (first = .left ∧ n = 0) →
    ¬ ((∀ j < 4, Side.left.Names (Side.left.low n) j →
        byteOf (probeStored n first .left) (Side.left.place (Side.left.low n) j) =
          byteOf 0x05060708#32 j) ∧
      ∀ j < 4, Side.right.Names (Side.right.low n) j →
        byteOf (probeStored n first .right) (Side.right.place (Side.right.low n) j) =
          byteOf 0x05060708#32 j) := by
  cases first <;> decide +kernel

theorem probe_storeThenLoad_wrong (stores loads : Side) : ∀ n < 4,
    ¬ (stores = .left ∧ loads = .left ∧ n = 0) →
    loads.other.loaded (loads.other.low n)
      (loads.loaded (loads.low n) 0 (probeStored n stores loads))
      (probeStored n stores loads.other) ≠ 0x05060708#32 := by
  cases stores <;> cases loads <;> decide +kernel

end Wrong

section Exactness

variable {δ : Type} {cpu : Cpu δ} {a : Word} {side : Side}

/-- The probe on a machine. -/
def Cpu.probed (cpu : Cpu δ) (a : Word) : Cpu δ := cpu.holding probeRam (probeRegs a)

theorem probed_ram : (cpu.probed a).bus.ram = probeRam := ram_withRam _ _

theorem Bus.InRam.probed {va : Word} (inRam : cpu.bus.InRam va) : (cpu.probed a).bus.InRam va :=
  inRam.withRam _

variable [Mmio δ]

theorem not_loads_left (inRam : cpu.bus.InRam a) : ¬ Unaligned.Loads (cpu.probed a) a .left := by
  intro loads
  have fields := Side.left.probeLoad_fields
  have here : (cpu.probed a).address Side.left.probeLoad = a :=
    probe_address rfl fields.2.2.1 fields.2.2.2
  obtain ⟨v, run, bytes⟩ := loads 0 Side.left.probeLoad fields.1 here
  rw [execute_load 0 fields.1 here inRam.probed, fields.2.1] at run
  have value := congrArg (Cpu.r · 5) run
  rw [wrReg_self _ (by decide), wrReg_self _ (by decide), probed_ram, ramWord_probe] at value
  refine probe_load_wrong (a.toNat % 4) (Nat.mod_lt _ (by decide)) fun j inside => ?_
  have byte := bytes j inside
  rw [← value, fields.2.1] at byte
  refine byte.trans ?_
  split
  case isTrue named => rw [probed_ram, ram_named probeRam inside named, ramWord_probe]
  case isFalse => rfl

theorem not_stored (inRam : cpu.bus.InRam a) (attached : cpu.bus.cacheIsolated = false)
    (wrong : ¬ (side = .right ∧ a.toNat % 4 = 3)) : ¬ Unaligned.Stored (cpu.probed a) a side := by
  intro stored
  obtain ⟨insn, code, reg, here⟩ : ∃ insn, op insn = side.storeCode ∧ rt insn = 5 ∧
      (cpu.probed a).address insn = a := by
    cases side with
    | left =>
        have here : (cpu.probed a).address 0xA8850000#32 = Side.left.addr a :=
          probe_address rfl (by decide) (by decide)
        exact ⟨_, by decide, by decide, here⟩
    | right =>
        have here : (cpu.probed a).address 0xB8850000#32 = Side.left.addr a :=
          probe_address rfl (by decide) (by decide)
        exact ⟨_, by decide, by decide, here⟩
  have bytes := (stored 0 insn code here).stored
  rw [execute_store 0 code here inRam.probed attached, reg] at bytes
  refine probe_store_wrong side (a.toNat % 4) (Nat.mod_lt _ (by decide)) wrong
    fun j inside named => ?_
  have byte := bytes j inside named
  dsimp only at byte
  rw [ram_withRam, ram_named (putWord _ _ _) inside named, ramWord_putWord, probed_ram,
    ramWord_probe] at byte
  exact byte

theorem names_some (n j : Nat) (small : n < 4) (inside : j < 4) :
    ∃ side : Side, side.Names (side.low n) j ∧
    side.place (side.low n) j = (n + j) % 4 := by
  by_cases first : n + j ≤ 3
  · exact ⟨.left, first, (Nat.mod_eq_of_lt (Nat.lt_succ_of_le first)).symm⟩
  · refine ⟨.right, ?_, ?_⟩ <;> simp only [Side.Names, Side.place, Side.low] <;> omega

theorem not_loadsPair {first : Side} (inRam : ∀ side : Side, cpu.bus.InRam (side.addr a))
    (wrong : ¬ (first = .left ∧ a.toNat % 4 = 0)) :
    ¬ Unaligned.LoadsPair (cpu.probed a) a first := by
  intro loads
  have start : IsRam (mipsVaToPa a) := (inRam .left).ram
  obtain ⟨code, reg, base, offset⟩ := first.probeLoad_fields
  obtain ⟨code', reg', base', offset'⟩ := first.other.probeLoad_fields
  have here : (cpu.probed a).address first.probeLoad = first.addr a :=
    probe_address rfl base offset
  have there : ((cpu.probed a).execute 0 first.probeLoad).address first.other.probeLoad =
      first.other.addr a := by
    rw [execute_load 0 code here (inRam first).probed, reg]
    exact probe_address rfl base' offset'
  have same : rt first.other.probeLoad = rt first.probeLoad := reg'.trans reg.symm
  obtain ⟨v, run, bytes⟩ := loads 0 _ _ code code' same here there
  rw [loadPair_run code code' same here there fun side => (inRam side).probed, reg] at run
  have value := congrArg (Cpu.r · 5) run
  rw [wrReg_self _ (by decide), wrReg_self _ (by decide), probed_ram, pairLoaded, pairWord, pairWord,
    ramWord_probe, ramWord_probe] at value
  refine probe_loadPair_wrong first (a.toNat % 4) (Nat.mod_lt _ (by decide)) wrong
    fun j inside => ?_
  obtain ⟨side, named, place⟩ := names_some (a.toNat % 4) j (Nat.mod_lt _ (by decide)) inside
  have byte := bytes j inside
  rw [← value, probed_ram, ram_datum probeRam start inside named, ramWord_probe, place] at byte
  exact byte

/-- A store pair run on the probe, with the word it leaves for each side. -/
theorem probe_stores (stores : Side) (inRam : ∀ side : Side, cpu.bus.InRam (side.addr a))
    (attached : cpu.bus.cacheIsolated = false) :
    ∃ insn insn', op insn = stores.storeCode ∧ op insn' = stores.other.storeCode ∧
      rt insn = 5 ∧ rt insn' = 5 ∧ (cpu.probed a).address insn = stores.addr a ∧
      ((cpu.probed a).execute 0 insn).address insn' = stores.other.addr a ∧
      ∃ ram, ((cpu.probed a).execute 0 insn).execute (0 + 4) insn' =
          { cpu.probed a with bus := cpu.bus.withRam ram } ∧
        ∀ side, pairWord ram a side = probeStored (a.toNat % 4) stores side := by
  have start : IsRam (mipsVaToPa a) := (inRam .left).ram
  obtain ⟨code, reg, base, offset⟩ := stores.probeStore_fields
  obtain ⟨code', reg', base', offset'⟩ := stores.other.probeStore_fields
  have here : (cpu.probed a).address stores.probeStore = stores.addr a :=
    probe_address rfl base offset
  have there : ((cpu.probed a).execute 0 stores.probeStore).address stores.other.probeStore =
      stores.other.addr a := by
    rw [execute_store 0 code here (inRam stores).probed attached]
    exact probe_address rfl base' offset'
  have run := storePair_run (0 + 4) code code' (reg'.trans reg.symm) here there
    (fun side => (inRam side).probed) attached
  rw [reg, probed_ram] at run
  exact ⟨_, _, code, code', reg, reg', here, there, _, run, pairWord_probe start stores⟩

theorem not_storesPair {first : Side} (inRam : ∀ side : Side, cpu.bus.InRam (side.addr a))
    (attached : cpu.bus.cacheIsolated = false) (wrong : ¬ (first = .left ∧ a.toNat % 4 = 0)) :
    ¬ Unaligned.StoresPair (cpu.probed a) a first := by
  intro stores
  have start : IsRam (mipsVaToPa a) := (inRam .left).ram
  obtain ⟨insn, insn', code, code', reg, reg', here, there, ram, run, words⟩ :=
    probe_stores first inRam attached
  have bytes := (stores 0 insn insn' code code' (reg'.trans reg.symm) here there).stored
  rw [run, reg] at bytes
  have wordBytes (side : Side) : ∀ j < 4, side.Names (side.low (a.toNat % 4)) j →
      byteOf (probeStored (a.toNat % 4) first side) (side.place (side.low (a.toNat % 4)) j) =
        byteOf 0x05060708#32 j := by
    intro j inside named
    have byte := bytes j inside trivial
    dsimp only at byte
    rw [ram_withRam, ram_datum ram start inside named] at byte
    rw [← words side]
    exact byte
  exact probe_storePair_wrong first (a.toNat % 4) (Nat.mod_lt _ (by decide)) wrong
    ⟨wordBytes .left, wordBytes .right⟩

theorem not_loadsStored {stores loads : Side} (inRam : ∀ side : Side, cpu.bus.InRam (side.addr a))
    (attached : cpu.bus.cacheIsolated = false)
    (wrong : ¬ (stores = .left ∧ loads = .left ∧ a.toNat % 4 = 0)) :
    ¬ Unaligned.LoadsStored (cpu.probed a) a stores loads := by
  intro law
  obtain ⟨insn, insn', code, code', reg, reg', here, there, ram, run, words⟩ :=
    probe_stores stores inRam attached
  obtain ⟨code2, reg2, base2, offset2⟩ := loads.probeAgain_fields
  obtain ⟨code2', reg2', base2', offset2'⟩ := loads.other.probeAgain_fields
  have between := law 0 insn insn' loads.probeAgain loads.other.probeAgain code code'
    (reg'.trans reg.symm) here there code2 code2' (reg2'.trans reg2.symm) (by rw [reg2]; decide)
  dsimp only at between
  rw [run, reg, reg2] at between
  have inRam' (side : Side) : (cpu.bus.withRam ram).InRam (side.addr a) := (inRam side).withRam ram
  have here2 : Cpu.address { cpu.probed a with bus := cpu.bus.withRam ram } loads.probeAgain =
      loads.addr a := probe_address rfl base2 offset2
  have there2 : (Cpu.execute { cpu.probed a with bus := cpu.bus.withRam ram } (0 + 8)
      loads.probeAgain).address loads.other.probeAgain = loads.other.addr a := by
    rw [execute_load (0 + 8) code2 here2 (inRam' loads), reg2]
    exact probe_address rfl base2' offset2'
  have value := between here2 there2
  rw [loadPair_run code2 code2' (reg2'.trans reg2.symm) here2 there2 inRam', reg2,
    wrReg_self _ (by decide), pairLoaded] at value
  dsimp only at value
  rw [ram_withRam, words, words] at value
  exact probe_storeThenLoad_wrong stores loads (a.toNat % 4) (Nat.mod_lt _ (by decide)) wrong value

/-- The accesses that the interpreter gets right, whatever RAM and the registers hold. -/
theorem unalignedMeets_iff (access : Unaligned) (attached : cpu.bus.cacheIsolated = false)
    (inRam : ∀ i < access.span, cpu.bus.InRam (a + BitVec.ofNat 32 i)) :
    cpu.UnalignedMeets access a ↔ access.Right (a.toNat % 4) := by
  have start (positive : 0 < access.span) : cpu.bus.InRam a := by
    have first := inRam 0 positive
    rwa [show a + BitVec.ofNat 32 0 = a from BitVec.add_zero a] at first
  have both (four : access.span = 4) (side : Side) : cpu.bus.InRam (side.addr a) := by
    cases side with
    | left => exact start (by rw [four]; decide)
    | right => exact inRam 3 (by rw [four]; decide)
  have held {va : Word} (here : cpu.bus.InRam va) (ram : Spot → BitVec 8) (r : Reg → Word) :
      (cpu.holding ram r).bus.InRam va := here.withRam ram
  cases access with
  | load side =>
      constructor
      · intro meets
        cases side with
        | left => exact absurd (meets probeRam (probeRegs a)) (not_loads_left (start Nat.one_pos))
        | right => rfl
      · rintro rfl ram r
        exact right_load_follows _ (held (start Nat.one_pos) ram r)
  | store side =>
      constructor
      · intro meets
        by_contra wrong
        exact not_stored (start Nat.one_pos) attached wrong (meets probeRam (probeRegs a))
      · rintro ⟨rfl, last⟩ ram r
        exact right_store_follows _ (held (start Nat.one_pos) ram r) attached last
  | loadPair first =>
      constructor
      · intro meets
        by_contra wrong
        exact not_loadsPair (both rfl) wrong (meets probeRam (probeRegs a))
      · rintro ⟨rfl, aligned⟩ ram r
        exact loadPair_follows _ (fun side => held (both rfl side) ram r) aligned
  | storePair first =>
      constructor
      · intro meets
        by_contra wrong
        exact not_storesPair (both rfl) attached wrong (meets probeRam (probeRegs a))
      · rintro ⟨rfl, aligned⟩ ram r
        exact storePair_follows _ (fun side => held (both rfl side) ram r) attached aligned
  | storeThenLoad stores loads =>
      constructor
      · intro meets
        by_contra wrong
        exact not_loadsStored (both rfl) attached wrong (meets probeRam (probeRegs a))
      · rintro ⟨rfl, rfl, aligned⟩ ram r
        exact loadsStored_follows _ (fun side => held (both rfl side) ram r) attached aligned

end Exactness

/-- The pair at an aligned address, and what goes wrong at the address behind it. -/
theorem unalignedMeets_dram :
    (bareMachine fun _ => 0).UnalignedMeets (.loadPair .left) 0x80001000#32 ∧
      ¬ (bareMachine fun _ => 0).UnalignedMeets (.loadPair .left) 0x80001001#32 := by
  have inRam (a : Word) (small : a = 0x80001000#32 ∨ a = 0x80001001#32) :
      ∀ i < (Unaligned.loadPair .left).span,
        (bareMachine fun _ => 0).bus.InRam (a + BitVec.ofNat 32 i) := by
    intro i inside
    change i < 4 at inside
    rcases small with rfl | rfl <;> interval_cases i <;> exact ⟨.inr (by decide), by decide⟩
  exact ⟨(unalignedMeets_iff (.loadPair .left) rfl (inRam _ (.inl rfl))).mpr (by decide),
    fun meets => absurd ((unalignedMeets_iff (.loadPair .left) rfl (inRam _ (.inr rfl))).mp meets)
      (by decide)⟩

/-- `lwl $a1,0($a0); lwr $a1,3($a0)` at an odd address: the bytes there are 2, 3, 4 and 5. -/
theorem unaligned_word_corrupt :
    let machine : Cpu Unit :=
      { bareMachine fun off => BitVec.ofNat 8 (off % 16 + 1) with
        r := fun i => if i = 4 then 0x80001001#32 else 0 }
    ((machine.execute 0x80001000#32 0x88850000#32).execute 0x80001004#32 0x98850003#32).r 5 =
        0x03040005#32 ∧
      ¬ Unaligned.LoadsPair machine 0x80001001#32 .left := by
  intro machine
  have loaded : ((machine.execute 0x80001000#32 0x88850000#32).execute 0x80001004#32
      0x98850003#32).r 5 = 0x03040005#32 := by decide +kernel
  refine ⟨loaded, fun loads => ?_⟩
  obtain ⟨v, run, bytes⟩ := loads 0x80001000#32 0x88850000#32 0x98850003#32 (by decide)
    (by decide) (by decide) (by decide +kernel) (by decide +kernel)
  have value : v = 0x03040005#32 := by
    rw [← loaded]
    exact ((congrArg (Cpu.r · 5) run).trans (wrReg_self _ (by decide) v)).symm
  have byte := bytes 0 (by decide)
  rw [value] at byte
  exact absurd byte (by decide +kernel)

end Ncd15.Emulator
