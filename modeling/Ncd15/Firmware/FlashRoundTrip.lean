import Ncd15.Emulator.FlashLoad
import Ncd15.Firmware.EcoffWrap

/-!
# From the wrapper to shadow RAM

The file that `build` writes, read back by the two section loops of the
emulator: both leave the raw code in the shadow bank at the load address and
touch nothing else.
-/

namespace Ncd15.Firmware

open Ncd15.Library Ncd15.Emulator

section Headers

variable (raw : List (BitVec 8)) (load entry : Word) (time : Nat)

def imageFile : List (BitVec 8) :=
  packed (headerFields raw.length load.toNat entry.toNat time) ++ raw

@[simp] theorem length_sectionName (name : String) : (sectionName name).length = 8 := by
  simp only [sectionName, List.length_rightpad, List.length_take]
  omega

theorem length_header (size load entry time : Nat) :
    (packed (headerFields size load entry time)).length = 0x140 := by
  simp [headerFields, scnhdrFields]

@[simp] theorem length_imageFile : (imageFile raw load entry time).length = 0x140 + raw.length := by
  rw [imageFile, List.length_append, length_header]

theorem getD_imageFile (i : Nat) :
    (imageFile raw load entry time).getD (0x140 + i) 0 = raw.getD i 0 := by
  rw [imageFile, List.getD_append_right _ _ _ _ (by rw [length_header]; omega), length_header,
    Nat.add_sub_cancel_left]

theorem isEcoff_imageFile : isEcoff (imageFile raw load entry time) = true := by
  simp only [isEcoff, length_imageFile, Bool.and_eq_true, decide_eq_true_eq]
  exact ⟨⟨Nat.le_add_right _ _, rfl⟩, rfl⟩

theorem nscns_imageFile : nscns (imageFile raw load entry time) = 6 := by
  have read : half (fun i => (imageFile raw load entry time).getD i 0) 2 = 6#16 :=
    half_packed (k := 1) raw rfl rfl
  rw [nscns, ← show (6#16).toNat = 6 from rfl, ← read]
  exact BitVec.toNat_setWidth_of_le (by decide)

theorem ldBe_imageFile {k value off : Nat}
    (item : (headerFields raw.length load.toNat entry.toNat time)[k]? = some (.I value))
    (start : (packed ((headerFields raw.length load.toNat entry.toNat time).take k)).length = off) :
    ldBe (fun i => (imageFile raw load entry time).getD i 0) off .four = BitVec.ofNat 32 value :=
  word_packed raw item start

theorem entry_imageFile :
    ldBe (fun i => (imageFile raw load entry time).getD i 0) 0x24 .four = entry := by
  refine (ldBe_imageFile (k := 12) raw load entry time rfl rfl).trans ?_
  rw [BitVec.ofNat_toNat, BitVec.setWidth_eq]

theorem headerAt_text :
    headerAt (imageFile raw load entry time) 0 = ⟨load, BitVec.ofNat 32 raw.length, 0x140#32⟩ := by
  simp only [headerAt, SectionHeader.mk.injEq]
  refine ⟨?_, ?_, ?_⟩
  · rw [ldBe_imageFile (k := 23) raw load entry time rfl (by simp [headerFields, scnhdrFields]),
      BitVec.ofNat_toNat, BitVec.setWidth_eq]
  · exact ldBe_imageFile (k := 25) raw load entry time rfl (by simp [headerFields, scnhdrFields])
  · exact ldBe_imageFile (k := 26) raw load entry time rfl (by simp [headerFields, scnhdrFields])

theorem headerAt_empty {index : Nat} (notText : 0 < index) (declared : index < 6) :
    (headerAt (imageFile raw load entry time) index).scnptr = 0 := by
  -- the file pointer of section `index` is item `26 + 10 * index` of the header
  refine ldBe_imageFile (k := 26 + 10 * index) raw load entry time ?_ ?_ <;>
    interval_cases index <;> simp [headerFields, scnhdrFields]

end Headers

section RoundTrip

variable {δ : Type}

/-- The shadow bank with the raw code at the given offset. -/
def withBlob (shadow : Nat → BitVec 8) (base : Nat) (raw : List (BitVec 8)) : Nat → BitVec 8 :=
  fun offset =>
    if base ≤ offset ∧ offset < base + raw.length then raw.getD (offset - base) 0
    else shadow offset

def shadowOffset (load : Word) : Nat :=
  (load &&& 0x1FFFFFFF#32).toNat - 0x0EC00000

theorem copyBytes_imageFile (raw : List (BitVec 8)) (load entry : Word) (time : Nat)
    (shadow : Nat → BitVec 8) (base : Nat) :
    copyBytes (imageFile raw load entry time) shadow base 0x140 raw.length =
      withBlob shadow base raw := by
  funext offset
  simp only [copyBytes, withBlob, getD_imageFile]

variable {raw : List (BitVec 8)} {load : Word}

theorem text_loads (nonempty : raw ≠ []) (low : 0x0EC00000 ≤ (load &&& 0x1FFFFFFF#32).toNat)
    (high : (load &&& 0x1FFFFFFF#32).toNat + raw.length ≤ 0x0F000000) :
    (⟨load, BitVec.ofNat 32 raw.length, 0x140#32⟩ : SectionHeader).Loads := by
  have positive : 0 < raw.length := List.length_pos_iff.mpr nonempty
  refine ⟨?_, ?_⟩
  · rintro (scnptr | ssize)
    · exact absurd (show 0x140#32 = 0#32 from scnptr) (by decide)
    · have zero : raw.length % 2 ^ 32 = 0 := congrArg BitVec.toNat ssize
      omega
  · simp only [SectionHeader.phys, BitVec.lt_def, BitVec.toNat_add, BitVec.toNat_ofNat]
    omega

theorem shadowOffset_fits (low : 0x0EC00000 ≤ (load &&& 0x1FFFFFFF#32).toNat)
    (high : (load &&& 0x1FFFFFFF#32).toNat + raw.length ≤ 0x0F000000) :
    shadowOffset load + raw.length ≤ shadowSize := by
  unfold shadowOffset shadowSize
  omega

theorem preloadSection_text (nonempty : raw ≠ []) (entry : Word) (time : Nat)
    (low : 0x0EC00000 ≤ (load &&& 0x1FFFFFFF#32).toNat)
    (high : (load &&& 0x1FFFFFFF#32).toNat + raw.length ≤ 0x0F000000)
    (shadow : Nat → BitVec 8) :
    preloadSection (imageFile raw load entry time) shadow 0 =
      some (withBlob shadow (shadowOffset load) raw) := by
  have base : ((load &&& 0x1FFFFFFF#32) - 0x0EC00000#32).toNat = shadowOffset load :=
    BitVec.toNat_sub_of_le low
  have size : (BitVec.ofNat 32 raw.length).toNat = raw.length := by
    rw [BitVec.toNat_ofNat]
    omega
  have length := length_imageFile raw load entry time
  have declared : 0x4C + 0 * 40 + 24 ≤ (imageFile raw load entry time).length := by omega
  have fits : 0x140 + raw.length ≤ (imageFile raw load entry time).length ∧
      shadowOffset load + raw.length ≤ shadowSize :=
    ⟨length.ge, shadowOffset_fits low high⟩
  rw [preloadSection_eq, headerAt_text, if_pos declared, if_pos (text_loads nonempty low high),
    SectionHeader.copy, SectionHeader.phys, base, size, copySection, ← copyBytes_imageFile raw load
      entry time shadow]
  exact if_pos fits

theorem preloadSection_empty (raw : List (BitVec 8)) (load entry : Word) (time : Nat)
    (shadow : Nat → BitVec 8) {index : Nat} (notText : 0 < index) (declared : index < 6) :
    preloadSection (imageFile raw load entry time) shadow index = some shadow := by
  rw [preloadSection_eq, if_pos (by rw [length_imageFile]; omega), if_neg]
  exact fun loads => loads.1 (.inl (headerAt_empty raw load entry time notText declared))

theorem preloadSections_imageFile (nonempty : raw ≠ []) (entry : Word) (time : Nat)
    (low : 0x0EC00000 ≤ (load &&& 0x1FFFFFFF#32).toNat)
    (high : (load &&& 0x1FFFFFFF#32).toNat + raw.length ≤ 0x0F000000)
    (shadow : Nat → BitVec 8) :
    preloadSections (imageFile raw load entry time) shadow =
      some (withBlob shadow (shadowOffset load) raw) := by
  have indices : List.range 6 = 0 :: [1, 2, 3, 4, 5] := rfl
  have skip : ∀ s, ∀ index ∈ [1, 2, 3, 4, 5],
      preloadSection (imageFile raw load entry time) s index = some s := by
    intro s index member
    refine preloadSection_empty raw load entry time s ?_ ?_ <;> simp at member <;> omega
  rw [preloadSections, nscns_imageFile, indices, List.foldlM_cons,
    preloadSection_text nonempty entry time low high]
  exact foldlM_congr skip _

/-- Whether a read of `va` reaches the flash window. -/
def ReadsFlash (b : Bus δ) (va : Word) : Prop :=
  ¬(0x1FC00000#32 ≤ mipsVaToPa va ∧ mipsVaToPa va < 0x1FC00000#32 + 0x00040000#32) ∧
    0x1F800000#32 ≤ mipsVaToPa va ∧ (mipsVaToPa va).toNat < 0x1F800000 + b.flashSize ∧
    b.hasFlash = true

/-- Runs of the machine on the bus that do not read the flash window.  Between
accesses the CPU and the devices update the fields they own. -/
inductive BeforeFlash [Mmio δ] (b : Bus δ) : Bus δ → Prop
  | start : BeforeFlash b b
  | read {c : Bus δ} (va : Word) (size : Size) :
      BeforeFlash b c → ¬ ReadsFlash c va → BeforeFlash b (busRead c va size).2.1
  | write {c : Bus δ} (va value : Word) (size : Size) :
      BeforeFlash b c → BeforeFlash b (busWrite c va value size)
  | step {c : Bus δ} (devices : δ) (lastPc : Word) (curCycles nextIrqCycle : BitVec 64)
      (bootFlashDone cacheIsolated lanceIrqPrev xncdRunning : Bool) :
      BeforeFlash b c → BeforeFlash b { c with
        devices := devices
        lastPc := lastPc
        curCycles := curCycles
        nextIrqCycle := nextIrqCycle
        bootFlashDone := bootFlashDone
        cacheIsolated := cacheIsolated
        lanceIrqPrev := lanceIrqPrev
        xncdRunning := xncdRunning }

/-- What the loaders left on the bus is still there, and the re-blit is still
to come. -/
def Pending (b c : Bus δ) : Prop :=
  c.hasFlash = true ∧ c.flashSize = b.flashSize ∧ c.ecoffBytes = b.ecoffBytes ∧
    c.ecoffPreloaded = false ∧ c.flashEntry = b.flashEntry

theorem pending_withImage {b : Bus δ} (fresh : b.ecoffPreloaded = false)
    (file : List (BitVec 8)) (shadow : Nat → BitVec 8) :
    Pending (b.withImage file shadow) (b.withImage file shadow) :=
  ⟨rfl, rfl, rfl, fresh, rfl⟩

theorem pending_write [Mmio δ] {b c : Bus δ} (pending : Pending b c) (va value : Word)
    (size : Size) : Pending b (busWrite c va value size) := by
  unfold busWrite
  dsimp only
  repeat' split
  all_goals exact pending

theorem pending_read [Mmio δ] {b c : Bus δ} (pending : Pending b c) {va : Word}
    (quiet : ¬ ReadsFlash c va) (size : Size) : Pending b (busRead c va size).2.1 := by
  unfold busRead
  dsimp only
  split
  · exact pending
  split
  · split <;> exact pending
  split
  case isTrue rom _ flash => exact absurd ⟨rom, flash.2.1, flash.2.2, flash.1⟩ quiet
  split
  · exact pending
  split
  · exact pending
  split <;> exact pending

theorem BeforeFlash.pending [Mmio δ] {b c : Bus δ} (fresh : Pending b b)
    (run : BeforeFlash b c) : Pending b c := by
  induction run with
  | start => exact fresh
  | read va size _ quiet ih => exact pending_read ih quiet size
  | write va value size _ ih => exact pending_write ih va value size
  | step => assumption

theorem reblit_flashEntry (b : Bus δ) : b.reblit.flashEntry = b.flashEntry := rfl

/-- The first read of the flash window runs the re-blit. -/
theorem busRead_flash [Mmio δ] {b c : Bus δ} (pending : Pending b c) {va : Word}
    (long : 0x140 ≤ b.ecoffBytes.length) (reads : ReadsFlash c va) (size : Size) :
    (busRead c va size).2.1 = c.reblit := by
  obtain ⟨notRom, low, high, hasFlash⟩ := reads
  have notShadow : ¬(0x0EC00000#32 ≤ mipsVaToPa va ∧ mipsVaToPa va < 0x0F000000#32) :=
    fun inside => absurd (Nat.lt_of_le_of_lt low inside.2) (by decide)
  have needs : c.needsReblit = true := by
    rw [Bus.needsReblit, pending.2.2.2.1, pending.2.2.1]
    simpa using long
  unfold busRead
  dsimp only
  rw [if_neg notRom, if_neg notShadow, if_pos ⟨hasFlash, low, high⟩, if_pos needs]

/-- The file of the wrapper, given to the emulator as a flash image, puts the
code at its load address twice: while it is loaded, and over whatever the bank
holds when the flash is first read. -/
theorem flashImage_roundTrip [Mmio δ] (b : Bus δ) (raw : List (BitVec 8)) (load entry : Word)
    (time : Nat) (notShort : 4 ≤ raw.length)
    (low : 0x0EC00000 ≤ (load &&& 0x1FFFFFFF#32).toNat)
    (high : (load &&& 0x1FFFFFFF#32).toNat + raw.length ≤ 0x0F000000)
    (fresh : b.ecoffPreloaded = false) :
    ∃ file loaded, build raw load.toNat entry.toNat time = some file ∧
      loadFlash b file = some loaded ∧
      loaded.shadow = withBlob b.shadow (shadowOffset load) raw ∧ loaded.flashEntry = entry ∧
      ∀ later va size, BeforeFlash loaded later → ReadsFlash later va →
        (busRead later va size).2.1.shadow = withBlob later.shadow (shadowOffset load) raw ∧
          (busRead later va size).2.1.flashEntry = entry := by
  have nonempty : raw ≠ [] := by
    rintro rfl
    simp at notShort
  have masked : load.toNat % 2 ^ 29 = (load &&& 0x1FFFFFFF#32).toNat := by
    rw [BitVec.toNat_and]
    exact (Nat.and_two_pow_sub_one_eq_mod load.toNat 29).symm
  have endFits : load.toNat + raw.length < 2 ^ 32 := by
    have := load.isLt
    omega
  have built : build raw load.toNat entry.toNat time = some (imageFile raw load entry time) :=
    build_of_fits time entry.isLt endFits (by omega)
  have eager := preloadSections_imageFile nonempty entry time low high b.shadow
  have loadedFile := loadFlash_ecoff b (isEcoff_imageFile raw load entry time) eager
  refine ⟨_, _, built, loadedFile, ?_⟩
  refine ⟨withImage_shadow _ _ _, entry_imageFile raw load entry time, ?_⟩
  intro later va size run reads
  have pending := run.pending (pending_withImage fresh _ _)
  have sectionsFit : SectionsFit (imageFile raw load entry time) := by
    rw [← preloadSections_isSome _ b.shadow, eager]
    rfl
  have lazy : reblitSections later.ecoffBytes later.shadow =
      some (withBlob later.shadow (shadowOffset load) raw) := by
    rw [pending.2.2.1, withImage_ecoffBytes]
    exact (reblitSections_of_fit sectionsFit _).trans
      (preloadSections_imageFile nonempty entry time low high later.shadow)
  have long : 0x140 ≤ (imageFile raw load entry time).length :=
    (length_imageFile raw load entry time).symm ▸ Nat.le_add_right _ _
  rw [busRead_flash pending long reads]
  have kept : later.flashEntry =
      ldBe (fun i => (imageFile raw load entry time).getD i 0) 0x24 .four := pending.2.2.2.2
  refine ⟨reblit_shadow lazy, ?_⟩
  rw [reblit_flashEntry, kept, entry_imageFile]

/-- One instruction wrapped for the default load address, and the bank read at
its offset. -/
theorem flashImage_roundTrip_default :
    ∃ file loaded, build [0x03#8, 0xE0#8, 0x00#8, 0x08#8] 0x8ED00000 0x8ED00000 1 = some file ∧
      loadFlash (bareMachine fun _ => 0).bus file = some loaded ∧
      ldBe loaded.shadow 0x100000 .four = 0x03E00008#32 ∧ loaded.flashEntry = 0x8ED00000#32 := by
  obtain ⟨file, loaded, built, load, shadow, entry, -⟩ := flashImage_roundTrip
    (bareMachine fun _ => 0).bus [0x03#8, 0xE0#8, 0x00#8, 0x08#8] 0x8ED00000#32 0x8ED00000#32 1
    (by decide) (by decide) (by decide) rfl
  refine ⟨file, loaded, built, load, ?_, entry⟩
  rw [shadow]
  decide +kernel

end RoundTrip

end Ncd15.Firmware
