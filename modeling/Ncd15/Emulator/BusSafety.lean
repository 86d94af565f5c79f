import Ncd15.Emulator.FlashLoad
import Ncd15.Emulator.Memory

/-!
# What a bus access touches

The decoding of `bus_read` and `bus_write` as targets, the bytes that an access
of a target touches, and the law that reads return what was written.  The
CPU never checks alignment, so an access may start in an array and end outside
it; exactly those accesses, and a re-blit of an unfit image, are unsafe.
-/

namespace Ncd15.Emulator

inductive Backing
  | rom
  | shadow
  | flash
  | dram
  | vram
  | lanceShmem
  deriving DecidableEq, Repr

/-- The bytes `[first, first + length)` of an array. -/
structure Span where
  array : Backing
  first : Nat
  length : Nat

/-- What the address decoding selects. -/
inductive Target
  | array (backing : Backing) (offset : Nat)
  | device (region : Region) (offset : Word)
  | unmapped

section LanceMemory

/-- `NCD15_LANCE_SHMEM_SIZE`. -/
def lanceShmemSize : Nat := 0x00020000

/-- `lance_shmem_off`: both byte lanes of a CPU word lead to one halfword. -/
def lanceShmemOff (off : Word) : Nat :=
  ((off >>> 2) <<< 1 ||| (off &&& 1#32)).toNat

/-- `lance_shmem_mmio_read`. -/
def lanceShmemRead (shmem : Nat → BitVec 8) (off : Word) (size : Size) : Word :=
  if size = .one then
    let s := lanceShmemOff off
    if lanceShmemSize ≤ s then 0xFF#32 else (shmem s).setWidth 32
  else
    let s := lanceShmemOff (off &&& ~~~3#32)
    if lanceShmemSize ≤ s + 1 then 0xFFFFFFFF#32 else ldBe shmem s .two

/-- `lance_shmem_mmio_write`. -/
def lanceShmemWrite (shmem : Nat → BitVec 8) (off value : Word) (size : Size) :
    Nat → BitVec 8 :=
  if size = .one then
    let s := lanceShmemOff off
    if s < lanceShmemSize then stBe shmem s value .one else shmem
  else
    let s := lanceShmemOff (off &&& ~~~3#32)
    if lanceShmemSize ≤ s + 1 then shmem else stBe shmem s value .two

/-- The bytes that the two callbacks touch. -/
def lanceShmemSpans (off : Word) (size : Size) : List Span :=
  if size = .one then
    let s := lanceShmemOff off
    if lanceShmemSize ≤ s then [] else [⟨.lanceShmem, s, 1⟩]
  else
    let s := lanceShmemOff (off &&& ~~~3#32)
    if lanceShmemSize ≤ s + 1 then [] else [⟨.lanceShmem, s, 2⟩]

end LanceMemory

/-- Devices whose LANCE shared-memory region is served by the two callbacks. -/
class LanceMemory (δ : Type) extends Mmio δ where
  shmem : δ → Nat → BitVec 8
  withShmem : δ → (Nat → BitVec 8) → δ
  shmem_withShmem : ∀ d bytes, shmem (withShmem d bytes) = bytes
  read_lanceShmem : ∀ d off size,
    Mmio.read d .lanceShmem off size = (lanceShmemRead (shmem d) off size, d)
  write_lanceShmem : ∀ d off value size,
    Mmio.write d .lanceShmem off value size =
      withShmem d (lanceShmemWrite (shmem d) off value size)

section Decoding

variable {δ : Type} (b : Bus δ)

def InRom (pa : Word) : Prop :=
  0x1FC00000#32 ≤ pa ∧ pa < 0x1FC00000#32 + 0x00040000#32

def InShadow (pa : Word) : Prop :=
  0x0EC00000#32 ≤ pa ∧ pa < 0x0F000000#32

def Bus.InFlash (pa : Word) : Prop :=
  b.hasFlash = true ∧ 0x1F800000#32 ≤ pa ∧ pa.toNat < 0x1F800000 + b.flashSize

instance (pa : Word) : Decidable (InRom pa) := inferInstanceAs (Decidable (_ ∧ _))
instance (pa : Word) : Decidable (InShadow pa) := inferInstanceAs (Decidable (_ ∧ _))
instance (pa : Word) : Decidable (b.InFlash pa) := inferInstanceAs (Decidable (_ ∧ _))

/-- The end of both decoders: devices, then video RAM. -/
def deviceTarget (pa : Word) : Target :=
  match findMmio pa with
  | some region => .device region (pa - region.start)
  | none =>
      if 0x0EC80000#32 ≤ pa ∧ pa < 0x0EC80000#32 + 0x00080000#32 then
        .array .vram (pa - 0x0EC80000#32).toNat
      else .unmapped

/-- The target of `bus_read`. -/
def Bus.readTarget (va : Word) : Target :=
  let pa := mipsVaToPa va
  if InRom pa then .array .rom (pa - 0x1FC00000#32).toNat
  else if InShadow pa then .array .shadow (pa - 0x0EC00000#32).toNat
  else if b.InFlash pa then .array .flash (pa - 0x1F800000#32).toNat
  else if pa < 0x0EC00000#32 then .array .dram (pa &&& (dramSize - 1)).toNat
  else deviceTarget pa

/-- The target of `bus_write`. -/
def Bus.writeTarget (va : Word) : Target :=
  let pa := mipsVaToPa va
  if InRom pa then .unmapped
  else if b.cacheIsolated then .unmapped
  else if InShadow pa then .array .shadow (pa - 0x0EC00000#32).toNat
  else if pa < 0x0EC00000#32 then .array .dram (pa &&& (dramSize - 1)).toNat
  else deviceTarget pa

/-- The bytes that an access of `size` bytes to a target touches. -/
def Target.spans (size : Size) : Target → List Span
  | .array backing offset => [⟨backing, offset, size.bytes⟩]
  | .device .lanceShmem offset => lanceShmemSpans offset size
  | .device _ _ => []
  | .unmapped => []

def Bus.bytes [LanceMemory δ] : Backing → Nat → BitVec 8
  | .rom => b.rom
  | .shadow => b.shadow
  | .flash => b.flash
  | .dram => b.dram
  | .vram => b.vram
  | .lanceShmem => LanceMemory.shmem b.devices

/-- The number of bytes allocated for an array, the ROM being as long as its
file. -/
def Bus.allocated (romSize : Nat) : Backing → Nat
  | .rom => romSize
  | .shadow => 0x00400000
  | .flash => b.flashSize
  | .dram => 0x00400000
  | .vram => 0x00080000
  | .lanceShmem => lanceShmemSize

/-- The span lies inside its array. -/
def Bus.Holds (romSize : Nat) (span : Span) : Prop :=
  span.first + span.length ≤ b.allocated romSize span.array

end Decoding

section Targets

variable {δ : Type} {b : Bus δ} {va : Word}

theorem readTarget_rom (rom : InRom (mipsVaToPa va)) :
    b.readTarget va = .array .rom (mipsVaToPa va - 0x1FC00000#32).toNat :=
  if_pos rom

theorem not_inRom_of_lt {pa : Word} (low : pa < 0x0F000000#32) : ¬ InRom pa :=
  fun rom => absurd (Nat.lt_of_le_of_lt rom.1 low) (by decide)

theorem not_inFlash_of_lt {pa : Word} (low : pa < 0x0F000000#32) : ¬ b.InFlash pa :=
  fun flash => absurd (Nat.lt_of_le_of_lt flash.2.1 low) (by decide)

theorem not_inShadow_of_lt {pa : Word} (low : pa < 0x0EC00000#32) : ¬ InShadow pa :=
  fun shadow => absurd (Nat.lt_of_le_of_lt shadow.1 low) (Nat.lt_irrefl _)

theorem lt_of_dram {pa : Word} (low : pa < 0x0EC00000#32) : pa < 0x0F000000#32 :=
  Nat.lt_trans (show pa.toNat < 0x0EC00000 from low) (by decide)

theorem readTarget_shadow (shadow : InShadow (mipsVaToPa va)) :
    b.readTarget va = .array .shadow (mipsVaToPa va - 0x0EC00000#32).toNat :=
  (if_neg (not_inRom_of_lt shadow.2)).trans (if_pos shadow)

theorem readTarget_dram (low : mipsVaToPa va < 0x0EC00000#32) :
    b.readTarget va = .array .dram (mipsVaToPa va &&& (dramSize - 1)).toNat :=
  (if_neg (not_inRom_of_lt (lt_of_dram low))).trans
    ((if_neg (not_inShadow_of_lt low)).trans
      ((if_neg (not_inFlash_of_lt (lt_of_dram low))).trans (if_pos low)))

theorem readTarget_flash (rom : ¬ InRom (mipsVaToPa va)) (flash : b.InFlash (mipsVaToPa va)) :
    b.readTarget va = .array .flash (mipsVaToPa va - 0x1F800000#32).toNat :=
  (if_neg rom).trans ((if_neg fun shadow => not_inFlash_of_lt shadow.2 flash).trans
    (if_pos flash))

theorem readTarget_device (rom : ¬ InRom (mipsVaToPa va)) (shadow : ¬ InShadow (mipsVaToPa va))
    (flash : ¬ b.InFlash (mipsVaToPa va)) (dram : ¬ mipsVaToPa va < 0x0EC00000#32) :
    b.readTarget va = deviceTarget (mipsVaToPa va) :=
  (if_neg rom).trans ((if_neg shadow).trans ((if_neg flash).trans (if_neg dram)))

theorem writeTarget_shadow (attached : b.cacheIsolated = false)
    (shadow : InShadow (mipsVaToPa va)) :
    b.writeTarget va = .array .shadow (mipsVaToPa va - 0x0EC00000#32).toNat :=
  (if_neg (not_inRom_of_lt shadow.2)).trans
    ((if_neg (by rw [attached]; decide)).trans (if_pos shadow))

theorem writeTarget_dram (attached : b.cacheIsolated = false)
    (low : mipsVaToPa va < 0x0EC00000#32) :
    b.writeTarget va = .array .dram (mipsVaToPa va &&& (dramSize - 1)).toNat :=
  (if_neg (not_inRom_of_lt (lt_of_dram low))).trans
    ((if_neg (by rw [attached]; decide)).trans
      ((if_neg (not_inShadow_of_lt low)).trans (if_pos low)))

end Targets

section Decoded

variable {δ : Type} [LanceMemory δ] (b : Bus δ) (va value : Word) (size : Size)

theorem busRead_value :
    (busRead b va size).1 =
      match b.readTarget va with
      | .array .shadow offset =>
          ((shadowIntercept b (mipsVaToPa va) size).map Prod.fst).getD
            (ldBe b.shadow offset size)
      | .array backing offset => ldBe (b.bytes backing) offset size
      | .device region offset => (Mmio.read b.devices region offset size).1
      | .unmapped => 0xFFFFFFFF#32 := by
  by_cases rom : InRom (mipsVaToPa va)
  · rw [readTarget_rom rom]
    exact congrArg Prod.fst (if_pos rom)
  by_cases shadow : InShadow (mipsVaToPa va)
  · rw [readTarget_shadow shadow,
      show busRead b va size = _ from (if_neg rom).trans (if_pos shadow)]
    cases shadowIntercept b (mipsVaToPa va) size <;> rfl
  by_cases flash : b.InFlash (mipsVaToPa va)
  · rw [readTarget_flash rom flash, show busRead b va size = _ from
      (if_neg rom).trans ((if_neg shadow).trans (if_pos flash))]
    dsimp only
    split <;> rfl
  by_cases dram : mipsVaToPa va < 0x0EC00000#32
  · rw [readTarget_dram dram, show busRead b va size = _ from
      (if_neg rom).trans ((if_neg shadow).trans ((if_neg flash).trans (if_pos dram)))]
    rfl
  rw [readTarget_device rom shadow flash dram, show busRead b va size = _ from
    (if_neg rom).trans ((if_neg shadow).trans ((if_neg flash).trans (if_neg dram)))]
  unfold deviceTarget
  cases findMmio (mipsVaToPa va) with
  | some region => rfl
  | none =>
      dsimp only
      split <;> rfl

theorem busWrite_eq :
    busWrite b va value size =
      match b.writeTarget va with
      | .array .shadow offset => { b with shadow := stBe b.shadow offset value size }
      | .array .dram offset => { b with dram := stBe b.dram offset value size }
      | .array .vram offset => { b with vram := stBe b.vram offset value size }
      | .array _ _ => b
      | .device region offset =>
          { b with devices := Mmio.write b.devices region offset value size }
      | .unmapped => b := by
  by_cases rom : InRom (mipsVaToPa va)
  · rw [show b.writeTarget va = .unmapped from if_pos rom]
    exact if_pos rom
  by_cases isolated : b.cacheIsolated
  · rw [show b.writeTarget va = .unmapped from (if_neg rom).trans (if_pos isolated)]
    exact (if_neg rom).trans (if_pos isolated)
  by_cases shadow : InShadow (mipsVaToPa va)
  · rw [writeTarget_shadow (by simpa using isolated) shadow]
    exact (if_neg rom).trans ((if_neg isolated).trans (if_pos shadow))
  by_cases dram : mipsVaToPa va < 0x0EC00000#32
  · rw [writeTarget_dram (by simpa using isolated) dram]
    exact (if_neg rom).trans ((if_neg isolated).trans ((if_neg shadow).trans (if_pos dram)))
  rw [show b.writeTarget va = deviceTarget (mipsVaToPa va) from
      (if_neg rom).trans ((if_neg isolated).trans ((if_neg shadow).trans (if_neg dram))),
    show busWrite b va value size = _ from
      (if_neg rom).trans ((if_neg isolated).trans ((if_neg shadow).trans (if_neg dram)))]
  unfold deviceTarget
  cases findMmio (mipsVaToPa va) with
  | some region => rfl
  | none =>
      dsimp only
      split <;> rfl

end Decoded

section Spans

variable {δ : Type} {b : Bus δ} {va : Word}

theorem lanceShmemSpans_hold (romSize : Nat) (off : Word) (size : Size) :
    ∀ span ∈ lanceShmemSpans off size, b.Holds romSize span := by
  intro span member
  unfold lanceShmemSpans at member
  dsimp only at member
  split at member <;> split at member
  all_goals simp only [List.mem_nil_iff, List.mem_singleton] at member
  all_goals
    subst member
    simp only [Bus.Holds, Bus.allocated]
    omega

theorem deviceTarget_hold (romSize : Nat) {pa : Word} (shadow : ¬ InShadow pa)
    (dram : ¬ pa < 0x0EC00000#32) (size : Size) :
    ∀ span ∈ (deviceTarget pa).spans size, b.Holds romSize span := by
  intro span member
  unfold deviceTarget at member
  split at member
  case h_1 region _ =>
    cases region
    case lanceShmem => exact lanceShmemSpans_hold romSize _ size span member
    all_goals cases member
  case h_2 =>
    split at member
    case isTrue window =>
      -- the video RAM window is a part of the shadow bank
      have low : 0x0EC00000#32 ≤ pa := BitVec.not_lt.mp dram
      exact absurd ⟨low, Nat.lt_trans window.2 (by decide)⟩ shadow
    case isFalse => cases member

/-- Physical addresses of the two RAM banks. -/
def IsRam (pa : Word) : Prop :=
  InShadow pa ∨ pa < 0x0EC00000#32

/-- The access stays inside what the decoding selects. -/
def Contained (romSize : Nat) (b : Bus δ) (va : Word) (size : Size) : Prop :=
  let pa := mipsVaToPa va
  if InRom pa then pa.toNat + size.bytes ≤ 0x1FC00000 + romSize
  else if InShadow pa then pa.toNat + size.bytes ≤ 0x0F000000
  else if b.InFlash pa then
    pa.toNat + size.bytes ≤ 0x1F800000 + b.flashSize ∧
      (b.needsReblit = true → ∀ index < nscns b.ecoffBytes, LazySectionFits b.ecoffBytes index)
  else if pa < 0x0EC00000#32 then pa.toNat % 0x00400000 + size.bytes ≤ 0x00400000
  else True

theorem toNat_dramOffset (pa : Word) :
    (pa &&& (dramSize - 1)).toNat = pa.toNat % 0x00400000 := by
  rw [BitVec.toNat_and]
  exact Nat.and_two_pow_sub_one_eq_mod pa.toNat 22

/-- The bytes of a read lie inside their array. -/
def ReadInside (romSize : Nat) (b : Bus δ) (va : Word) (size : Size) : Prop :=
  ∀ span ∈ (b.readTarget va).spans size, b.Holds romSize span

theorem forall_mem_array {romSize : Nat} {backing : Backing} {offset : Nat} {size : Size} :
    (∀ span ∈ (Target.array backing offset).spans size, b.Holds romSize span) ↔
      offset + size.bytes ≤ b.allocated romSize backing := by
  simp [Target.spans, Bus.Holds]

theorem contained_iff (romSize : Nat) (b : Bus δ) (va : Word) (size : Size) :
    Contained romSize b va size ↔
      ReadInside romSize b va size ∧
        (¬ InRom (mipsVaToPa va) → b.InFlash (mipsVaToPa va) → b.needsReblit = true →
          (reblitSections b.ecoffBytes b.shadow).isSome) := by
  unfold Contained ReadInside
  dsimp only
  by_cases rom : InRom (mipsVaToPa va)
  · have base : (mipsVaToPa va - 0x1FC00000#32).toNat = (mipsVaToPa va).toNat - 0x1FC00000 :=
      BitVec.toNat_sub_of_le rom.1
    have low : 0x1FC00000 ≤ (mipsVaToPa va).toNat := rom.1
    rw [if_pos rom, readTarget_rom rom, forall_mem_array, base]
    simp only [Bus.allocated, rom, not_true_eq_false, false_implies, and_true]
    omega
  rw [if_neg rom]
  by_cases shadow : InShadow (mipsVaToPa va)
  · have base : (mipsVaToPa va - 0x0EC00000#32).toNat = (mipsVaToPa va).toNat - 0x0EC00000 :=
      BitVec.toNat_sub_of_le shadow.1
    have low : 0x0EC00000 ≤ (mipsVaToPa va).toNat := shadow.1
    have flash : ¬ b.InFlash (mipsVaToPa va) := not_inFlash_of_lt shadow.2
    rw [if_pos shadow, readTarget_shadow shadow, forall_mem_array, base]
    simp only [Bus.allocated, flash, false_implies, implies_true, and_true]
    omega
  rw [if_neg shadow]
  by_cases flash : b.InFlash (mipsVaToPa va)
  · have base : (mipsVaToPa va - 0x1F800000#32).toNat = (mipsVaToPa va).toNat - 0x1F800000 :=
      BitVec.toNat_sub_of_le flash.2.1
    have low : 0x1F800000 ≤ (mipsVaToPa va).toNat := flash.2.1
    rw [if_pos flash, readTarget_flash rom flash, forall_mem_array, base,
      reblitSections_isSome]
    simp only [Bus.allocated, rom, flash, not_false_eq_true, true_implies]
    exact and_congr_left' (by omega)
  rw [if_neg flash]
  by_cases dram : mipsVaToPa va < 0x0EC00000#32
  · rw [if_pos dram, readTarget_dram dram, forall_mem_array, toNat_dramOffset]
    simp only [Bus.allocated, flash, false_implies, implies_true, and_true]
  · rw [if_neg dram, readTarget_device rom shadow flash dram]
    simp only [flash, false_implies, implies_true, and_true, true_iff]
    exact deviceTarget_hold romSize shadow dram size

end Spans

section Writes

variable {δ : Type}

/-- A write never touches more of RAM than a read of the same address. -/
theorem writeTarget_hold {romSize : Nat} {b : Bus δ} {va : Word} {size : Size}
    (inside : ReadInside romSize b va size) :
    ∀ span ∈ (b.writeTarget va).spans size, b.Holds romSize span := by
  by_cases rom : InRom (mipsVaToPa va)
  · rw [show b.writeTarget va = .unmapped from if_pos rom]
    exact fun span member => nomatch member
  by_cases isolated : b.cacheIsolated
  · rw [show b.writeTarget va = .unmapped from (if_neg rom).trans (if_pos isolated)]
    exact fun span member => nomatch member
  have attached : b.cacheIsolated = false := by simpa using isolated
  by_cases shadow : InShadow (mipsVaToPa va)
  · rw [writeTarget_shadow attached shadow, ← readTarget_shadow shadow]
    exact inside
  by_cases dram : mipsVaToPa va < 0x0EC00000#32
  · rw [writeTarget_dram attached dram, ← readTarget_dram dram]
    exact inside
  rw [show b.writeTarget va = deviceTarget (mipsVaToPa va) from
    (if_neg rom).trans ((if_neg isolated).trans ((if_neg shadow).trans (if_neg dram)))]
  exact deviceTarget_hold romSize shadow dram size

/-- Whether a read is intercepted does not depend on the contents of the bank. -/
theorem shadowIntercept_isNone (b : Bus δ) (bytes : Nat → BitVec 8) (pa : Word) (size : Size) :
    (shadowIntercept { b with shadow := bytes } pa size).isNone =
      (shadowIntercept b pa size).isNone := by
  unfold shadowIntercept
  simp only [apply_ite Option.isNone, Option.isNone_some, Option.isNone_none]

end Writes

section Law

variable {δ : Type} [LanceMemory δ] {b : Bus δ} {va : Word} (size : Size)

theorem busRead_busWrite (attached : b.cacheIsolated = false) (ram : IsRam (mipsVaToPa va))
    (free : shadowIntercept b (mipsVaToPa va) size = none) (value : Word) :
    (busRead (busWrite b va value size) va size).1 = size.low value := by
  rcases ram with shadow | dram
  · rw [busWrite_eq, writeTarget_shadow attached shadow, busRead_value, readTarget_shadow shadow]
    have stillFree : shadowIntercept { b with
        shadow := stBe b.shadow (mipsVaToPa va - 0x0EC00000#32).toNat value size }
        (mipsVaToPa va) size = none := by
      rw [← Option.isNone_iff_eq_none, shadowIntercept_isNone, free]
      rfl
    dsimp only
    rw [stillFree]
    exact ldBe_stBe _ _ _ _
  · rw [busWrite_eq, writeTarget_dram attached dram, busRead_value, readTarget_dram dram]
    exact ldBe_stBe _ _ _ _

theorem busWrite_frame (value : Word) {backing : Backing} (offset : Nat)
    (outside : ∀ span ∈ (b.writeTarget va).spans size, span.array = backing →
      offset < span.first ∨ span.first + span.length ≤ offset)
    (ram : backing = .dram ∨ backing = .shadow) :
    (busWrite b va value size).bytes backing offset = b.bytes backing offset := by
  rw [busWrite_eq]
  cases target : b.writeTarget va with
  | array selected first =>
      have apart : selected = backing → offset < first ∨ first + size.bytes ≤ offset :=
        outside ⟨selected, first, size.bytes⟩ (by simp [target, Target.spans])
      rcases ram with rfl | rfl <;> cases selected <;>
        first | rfl | exact stBe_outside _ _ (apart rfl)
  | _ => rcases ram with rfl | rfl <;> rfl

/-- The value of a read depends only on the bytes of its spans. -/
theorem busRead_footprint {c : Bus δ}
    (others : c = { b with
      rom := c.rom, shadow := c.shadow, flash := c.flash, dram := c.dram, vram := c.vram })
    (same : ∀ span ∈ (b.readTarget va).spans size, ∀ i < span.length,
      b.bytes span.array (span.first + i) = c.bytes span.array (span.first + i))
    (free : shadowIntercept b (mipsVaToPa va) size = none) :
    (busRead b va size).1 = (busRead c va size).1 := by
  have target : c.readTarget va = b.readTarget va := by rw [others]; rfl
  have devices : c.devices = b.devices := by rw [others]
  have freeToo : shadowIntercept c (mipsVaToPa va) size = none := by
    rw [← Option.isNone_iff_eq_none, others]
    exact (shadowIntercept_isNone b c.shadow (mipsVaToPa va) size).trans (by rw [free]; rfl)
  rw [busRead_value, busRead_value, target, free, freeToo]
  cases selected : b.readTarget va with
  | array backing first =>
      have agree : ldBe (b.bytes backing) first size = ldBe (c.bytes backing) first size :=
        ldBe_congr (same ⟨backing, first, size.bytes⟩ (by simp [selected, Target.spans]))
      cases backing <;> exact agree
  | device region offset => rw [devices]
  | unmapped => rfl

/-- What the bus promises about accesses of `size` bytes at `va`. -/
structure BusLaw (romSize : Nat) (b : Bus δ) (va : Word) (size : Size) : Prop where
  read : ReadInside romSize b va size
  reblit : ¬ InRom (mipsVaToPa va) → b.InFlash (mipsVaToPa va) → b.needsReblit = true →
    (reblitSections b.ecoffBytes b.shadow).isSome
  write : ∀ span ∈ (b.writeTarget va).spans size, b.Holds romSize span
  readBack : b.cacheIsolated = false → IsRam (mipsVaToPa va) →
    shadowIntercept b (mipsVaToPa va) size = none →
    ∀ value, (busRead (busWrite b va value size) va size).1 = size.low value
  frame : ∀ value offset backing, backing = .dram ∨ backing = .shadow →
    (∀ span ∈ (b.writeTarget va).spans size, span.array = backing →
      offset < span.first ∨ span.first + span.length ≤ offset) →
    (busWrite b va value size).bytes backing offset = b.bytes backing offset

/-- The bus keeps its promises exactly at the accesses that end where they
start. -/
theorem busLaw_iff (romSize : Nat) (b : Bus δ) (va : Word) (size : Size) :
    BusLaw romSize b va size ↔ Contained romSize b va size := by
  rw [contained_iff]
  constructor
  · intro law
    exact ⟨law.read, law.reblit⟩
  · rintro ⟨inside, fits⟩
    exact {
      read := inside
      reblit := fits
      write := writeTarget_hold inside
      readBack := fun attached ram free => busRead_busWrite size attached ram free
      frame := fun value offset backing ram outside =>
        busWrite_frame size value offset outside ram }

end Law

theorem toNat_mipsVaToPa_mod (va : Word) : (mipsVaToPa va).toNat % 4 = va.toNat % 4 := by
  rw [toNat_mipsVaToPa]
  repeat' split
  all_goals omega

/-- Aligned accesses are contained when the ROM file is complete and the flash
image fits. -/
theorem contained_of_aligned {δ : Type} {b : Bus δ} {va : Word} {size : Size}
    (aligned : va.toNat % size.bytes = 0) (flash : b.flashSize = flashAlloc)
    (fits : ∀ index < nscns b.ecoffBytes, LazySectionFits b.ecoffBytes index) :
    Contained 0x00040000 b va size := by
  have low := toNat_mipsVaToPa_mod va
  have alignedPa : (mipsVaToPa va).toNat % size.bytes = 0 := by
    cases size <;> simp only [Size.bytes] at aligned ⊢ <;> omega
  have step : ∀ limit, limit % 4 = 0 → (mipsVaToPa va).toNat < limit →
      (mipsVaToPa va).toNat + size.bytes ≤ limit := by
    intro limit multiple below
    cases size <;> simp only [Size.bytes] at alignedPa ⊢ <;> omega
  unfold Contained
  dsimp only
  split
  case isTrue rom => exact step _ (by decide) rom.2
  split
  case isTrue shadow => exact step _ (by decide) shadow.2
  split
  case isTrue window =>
    have inside := window.2.2
    rw [flash] at inside ⊢
    exact ⟨step _ (by decide) inside, fun _ => fits⟩
  split
  · cases size <;> simp only [Size.bytes] at alignedPa ⊢ <;> omega
  · trivial

/-- The shared memory as the only device. -/
instance : LanceMemory (Nat → BitVec 8) where
  read shmem region off size :=
    if region = .lanceShmem then (lanceShmemRead shmem off size, shmem) else (0, shmem)
  write shmem region off value size :=
    if region = .lanceShmem then lanceShmemWrite shmem off value size else shmem
  lanceIrq _ := false
  shmem bytes := bytes
  withShmem _ bytes := bytes
  shmem_withShmem _ _ := rfl
  read_lanceShmem _ _ _ := rfl
  write_lanceShmem _ _ _ _ := rfl

/-- A load of a word two bytes before the end of DRAM reads two bytes behind
it. -/
theorem unaligned_load_leaves_dram :
    ¬ BusLaw 0x00040000
      { (bareMachine fun _ => 0).bus with devices := fun _ : Nat => 0#8 } 0x803FFFFE#32 .four := by
  intro law
  have inside := law.read ⟨.dram, 0x003FFFFE, 4⟩ (by
    rw [readTarget_dram (by decide)]
    exact List.mem_singleton.mpr rfl)
  exact absurd inside (by simp [Bus.Holds, Bus.allocated])

end Ncd15.Emulator
