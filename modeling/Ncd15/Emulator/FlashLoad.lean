import Ncd15.Emulator.Step

/-!
# Loading a flash image

The `--flash` branch of `main` and the two copies of the ECOFF section loop:
the eager one, which runs while the image is loaded, and the lazy one of
`bus_read`, which runs on the first read of the flash window.  Here a copy that
leaves the file or the shadow bank has no result.
-/

namespace Ncd15.Emulator

/-- Number of bytes of the shadow bank. -/
def shadowSize : Nat := 0x00400000

/-- The part of a section header that the loaders read. -/
structure SectionHeader where
  paddr : Word
  ssize : Word
  scnptr : Word

section Sections

variable (file : List (BitVec 8))

/-- A big-endian word of the file; `none` when it does not lie in the file. -/
def fileWord (offset : Nat) : Option Word :=
  if offset + 4 ≤ file.length then some (ldBe (fun i => file.getD i 0) offset .four) else none

/-- Section header `index`, at file offset `0x4C + index * 40`. -/
def sectionHeader (index : Nat) : Option SectionHeader := do
  let sh := 0x4C + index * 40
  let paddr ← fileWord file (sh + 8)
  let ssize ← fileWord file (sh + 16)
  let scnptr ← fileWord file (sh + 20)
  return ⟨paddr, ssize, scnptr⟩

def nscns : Nat :=
  (ldBe (fun i => file.getD i 0) 2 .two).toNat

/-- Overwrite `size` bytes from `target` on by the bytes of the file from
`source` on. -/
def copyBytes (shadow : Nat → BitVec 8) (target source size : Nat) : Nat → BitVec 8 :=
  fun offset =>
    if target ≤ offset ∧ offset < target + size then file.getD (source + (offset - target)) 0
    else shadow offset

/-- `memcpy` of a section into shadow RAM; `none` when it reads outside the
file or writes outside the bank. -/
def copySection (shadow : Nat → BitVec 8) (target source size : Nat) :
    Option (Nat → BitVec 8) :=
  if source + size ≤ file.length ∧ target + size ≤ shadowSize then
    some (copyBytes file shadow target source size)
  else none

/-- One round of the section loop in `main`. -/
def preloadSection (shadow : Nat → BitVec 8) (index : Nat) : Option (Nat → BitVec 8) := do
  let header ← sectionHeader file index
  if header.scnptr = 0 ∨ header.ssize = 0 then return shadow
  let phys := header.paddr &&& 0x1FFFFFFF#32
  if phys < 0x0EC00000#32 ∨ 0x0F000000#32 < phys + header.ssize then return shadow
  copySection file shadow (phys - 0x0EC00000#32).toNat header.scnptr.toNat header.ssize.toNat

/-- One round of the section loop in `bus_read`, which also tests the end of
the section against the end of the file. -/
def reblitSection (shadow : Nat → BitVec 8) (index : Nat) : Option (Nat → BitVec 8) := do
  let header ← sectionHeader file index
  if header.scnptr = 0 ∨ header.ssize = 0 then return shadow
  if file.length < header.scnptr.toNat + header.ssize.toNat then return shadow
  let phys := header.paddr &&& 0x1FFFFFFF#32
  if phys < 0x0EC00000#32 ∨ 0x0F000000#32 < phys + header.ssize then return shadow
  copySection file shadow (phys - 0x0EC00000#32).toNat header.scnptr.toNat header.ssize.toNat

/-- The section loop of `main`. -/
def preloadSections (shadow : Nat → BitVec 8) : Option (Nat → BitVec 8) :=
  (List.range (nscns file)).foldlM (preloadSection file) shadow

/-- The section loop of `bus_read`. -/
def reblitSections (shadow : Nat → BitVec 8) : Option (Nat → BitVec 8) :=
  (List.range (nscns file)).foldlM (reblitSection file) shadow

/-- The test of `main` for an ECOFF file. -/
def isEcoff : Bool :=
  0x140 ≤ file.length && file.getD 0 0 = 0x01#8 && file.getD 1 0 = 0x60#8

end Sections

/-- `alloc_sz`, the size of the flash window. -/
def flashAlloc : Nat := 0x800000

/-- The instructions `lui $t0; ori $t0; jr $t0` that lead from the start of the
flash to the entry, without the `ori` when the low half is zero. -/
def redirectStub (flash : Nat → BitVec 8) (entry : Word) : Nat → BitVec 8 :=
  let hi := entry.extractLsb' 16 16
  let lo := entry.extractLsb' 0 16
  let flash := stBe flash 0 (0x3C08#16 ++ hi) .four
  if lo ≠ 0 then stBe (stBe flash 4 (0x3508#16 ++ lo) .four) 8 0x01000008#32 .four
  else stBe flash 4 0x01000008#32 .four

variable {δ : Type}

/-- The `--flash` branch of `main`: the bus after the image is loaded. -/
def loadFlash (b : Bus δ) (file : List (BitVec 8)) : Option (Bus δ) :=
  if isEcoff file then do
    let payload := min (file.length - 0x140) flashAlloc
    let flash := copyBytes file (fun _ => 0xFF#8) 0 0x140 payload
    let shadow ← preloadSections file b.shadow
    let entry ← fileWord file 0x24
    return { b with
      hasFlash := true
      shadow := shadow
      flash := redirectStub flash entry
      flashEntry := entry
      flashSize := flashAlloc
      ecoffBytes := file }
  else
    return { b with
      hasFlash := true
      flash := copyBytes file (fun _ => 0xFF#8) 0 0 (min file.length flashAlloc)
      flashSize := flashAlloc }

section Sections

variable (file : List (BitVec 8))

/-- The fields of section header `index`, with zeros past the end of the file. -/
def headerAt (index : Nat) : SectionHeader :=
  let bytes := fun i => file.getD i 0
  ⟨ldBe bytes (0x4C + index * 40 + 8) .four, ldBe bytes (0x4C + index * 40 + 16) .four,
    ldBe bytes (0x4C + index * 40 + 20) .four⟩

/-- Physical address of a section. -/
def SectionHeader.phys (header : SectionHeader) : Word :=
  header.paddr &&& 0x1FFFFFFF#32

/-- The sections that pass the tests of both loops and are copied. -/
def SectionHeader.Loads (header : SectionHeader) : Prop :=
  ¬(header.scnptr = 0 ∨ header.ssize = 0) ∧
    ¬(header.phys < 0x0EC00000#32 ∨ 0x0F000000#32 < header.phys + header.ssize)

instance (header : SectionHeader) : Decidable header.Loads :=
  inferInstanceAs (Decidable (_ ∧ _))

/-- The copy of a section. -/
def SectionHeader.copy (header : SectionHeader) (shadow : Nat → BitVec 8) :
    Option (Nat → BitVec 8) :=
  copySection file shadow (header.phys - 0x0EC00000#32).toNat header.scnptr.toNat
    header.ssize.toNat

theorem fileWord_of_le {offset : Nat} (inside : offset + 4 ≤ file.length) :
    fileWord file offset = some (ldBe (fun i => file.getD i 0) offset .four) :=
  if_pos inside

theorem fileWord_of_gt {offset : Nat} (outside : file.length < offset + 4) :
    fileWord file offset = none :=
  if_neg (by omega)

theorem sectionHeader_eq (index : Nat) :
    sectionHeader file index =
      if 0x4C + index * 40 + 24 ≤ file.length then some (headerAt file index) else none := by
  unfold sectionHeader
  dsimp only
  split
  case isTrue inside =>
    rw [fileWord_of_le file (by omega), fileWord_of_le file (by omega),
      fileWord_of_le file (by omega)]
    rfl
  case isFalse outside =>
    have last : fileWord file (0x4C + index * 40 + 20) = none :=
      fileWord_of_gt file (by omega)
    rw [last]
    cases fileWord file (0x4C + index * 40 + 8) <;>
      cases fileWord file (0x4C + index * 40 + 16) <;> rfl

theorem preloadSection_eq (shadow : Nat → BitVec 8) (index : Nat) :
    preloadSection file shadow index =
      if 0x4C + index * 40 + 24 ≤ file.length then
        if (headerAt file index).Loads then (headerAt file index).copy file shadow
        else some shadow
      else none := by
  unfold preloadSection
  rw [sectionHeader_eq]
  split
  · generalize headerAt file index = header
    simp only [Option.bind_eq_bind, Option.bind_some]
    by_cases empty : header.scnptr = 0 ∨ header.ssize = 0
    · rw [if_pos empty, if_neg (fun loads => loads.1 empty)]
      rfl
    rw [if_neg empty]
    by_cases window : header.phys < 0x0EC00000#32 ∨ 0x0F000000#32 < header.phys + header.ssize
    · rw [if_neg (fun loads : header.Loads => loads.2 window)]
      exact if_pos window
    · rw [if_pos (show header.Loads from ⟨empty, window⟩)]
      exact if_neg window
  · rfl

theorem reblitSection_eq (shadow : Nat → BitVec 8) (index : Nat) :
    reblitSection file shadow index =
      if 0x4C + index * 40 + 24 ≤ file.length then
        if (headerAt file index).Loads ∧
            (headerAt file index).scnptr.toNat + (headerAt file index).ssize.toNat ≤ file.length
        then (headerAt file index).copy file shadow
        else some shadow
      else none := by
  unfold reblitSection
  rw [sectionHeader_eq]
  split
  · generalize headerAt file index = header
    simp only [Option.bind_eq_bind, Option.bind_some]
    by_cases empty : header.scnptr = 0 ∨ header.ssize = 0
    · rw [if_pos empty, if_neg (fun loads => loads.1.1 empty)]
      rfl
    rw [if_neg empty]
    by_cases beyond : file.length < header.scnptr.toNat + header.ssize.toNat
    · rw [if_pos beyond, if_neg (fun loads => absurd loads.2 (Nat.not_le.mpr beyond))]
      rfl
    rw [if_neg beyond]
    by_cases window : header.phys < 0x0EC00000#32 ∨ 0x0F000000#32 < header.phys + header.ssize
    · rw [if_neg (fun loads : header.Loads ∧ _ => loads.1.2 window)]
      exact if_pos window
    · rw [if_pos (show header.Loads ∧ _ from ⟨⟨empty, window⟩, Nat.not_lt.mp beyond⟩)]
      exact if_neg window
  · rfl

/-- The bytes that the loaders read and write for section `index` lie inside
the file and the bank. -/
def SectionFits (index : Nat) : Prop :=
  0x4C + index * 40 + 24 ≤ file.length ∧
    ((headerAt file index).Loads →
      (headerAt file index).scnptr.toNat + (headerAt file index).ssize.toNat ≤ file.length ∧
        (headerAt file index).phys.toNat + (headerAt file index).ssize.toNat ≤ 0x0F000000)

theorem copy_isSome {header : SectionHeader} (loads : header.Loads)
    (shadow : Nat → BitVec 8) :
    (header.copy file shadow).isSome ↔
      header.scnptr.toNat + header.ssize.toNat ≤ file.length ∧
        header.phys.toNat + header.ssize.toNat ≤ 0x0F000000 := by
  have low : 0x0EC00000#32 ≤ header.phys := BitVec.not_lt.mp fun low => loads.2 (.inl low)
  have offset : (header.phys - 0x0EC00000#32).toNat = header.phys.toNat - 0x0EC00000 :=
    BitVec.toNat_sub_of_le low
  have base : 0x0EC00000 ≤ header.phys.toNat := low
  simp only [SectionHeader.copy, copySection, offset, shadowSize, Option.isSome_ite]
  omega

theorem preloadSection_isSome (shadow : Nat → BitVec 8) (index : Nat) :
    (preloadSection file shadow index).isSome ↔ SectionFits file index := by
  rw [preloadSection_eq, SectionFits]
  split
  case isTrue inside =>
    by_cases loads : (headerAt file index).Loads
    · rw [if_pos loads, copy_isSome file loads]
      simp [inside, loads]
    · simp [inside, loads]
  case isFalse outside => simp [outside]

theorem reblitSection_of_fits (shadow : Nat → BitVec 8) {index : Nat}
    (fits : SectionFits file index) :
    reblitSection file shadow index = preloadSection file shadow index := by
  rw [reblitSection_eq, preloadSection_eq, if_pos fits.1, if_pos fits.1]
  by_cases loads : (headerAt file index).Loads
  · rw [if_pos loads, if_pos ⟨loads, (fits.2 loads).1⟩]
  · rw [if_neg loads, if_neg fun both => loads both.1]

end Sections

section Loops

variable {σ ι : Type} {f g : σ → ι → Option σ}

/-- A loop whose rounds are defined independently of the state is defined when
all its rounds are. -/
theorem foldlM_isSome_iff {defined : ι → Prop}
    (round : ∀ s i, (f s i).isSome ↔ defined i) (items : List ι) (s : σ) :
    (items.foldlM f s).isSome ↔ ∀ i ∈ items, defined i := by
  induction items generalizing s with
  | nil => simp
  | cons i items ih =>
      rw [List.foldlM_cons, List.forall_mem_cons, ← round s i]
      cases step : f s i with
      | none => simp
      | some next => simpa using ih next

theorem foldlM_congr {items : List ι} (same : ∀ s, ∀ i ∈ items, f s i = g s i) (s : σ) :
    items.foldlM f s = items.foldlM g s := by
  induction items generalizing s with
  | nil => rfl
  | cons i items ih =>
      rw [List.foldlM_cons, List.foldlM_cons, same s i List.mem_cons_self]
      congr 1
      funext next
      exact ih (fun s j member => same s j (List.mem_cons_of_mem i member)) next

end Loops

/-- All declared section headers lie in the file, and so do the bytes of every
section that is loaded, whose addresses end below the end of the bank without
wrapping. -/
def SectionsFit (file : List (BitVec 8)) : Prop :=
  ∀ index < nscns file, SectionFits file index

theorem preloadSections_isSome (file : List (BitVec 8)) (shadow : Nat → BitVec 8) :
    (preloadSections file shadow).isSome ↔ SectionsFit file := by
  rw [preloadSections, foldlM_isSome_iff (preloadSection_isSome file)]
  simp [SectionsFit]

theorem reblitSections_of_fit {file : List (BitVec 8)} (fit : SectionsFit file)
    (shadow : Nat → BitVec 8) :
    reblitSections file shadow = preloadSections file shadow :=
  foldlM_congr (fun shadow index member =>
    reblitSection_of_fits file shadow (fit index (List.mem_range.mp member))) shadow

/-- What the lazy loop needs of section `index`: its header lies in the file,
and a section that it copies ends below the end of the bank without wrapping. -/
def LazySectionFits (file : List (BitVec 8)) (index : Nat) : Prop :=
  0x4C + index * 40 + 24 ≤ file.length ∧
    ((headerAt file index).Loads →
      (headerAt file index).scnptr.toNat + (headerAt file index).ssize.toNat ≤ file.length →
        (headerAt file index).phys.toNat + (headerAt file index).ssize.toNat ≤ 0x0F000000)

theorem reblitSection_isSome (file : List (BitVec 8)) (shadow : Nat → BitVec 8) (index : Nat) :
    (reblitSection file shadow index).isSome ↔ LazySectionFits file index := by
  rw [reblitSection_eq, LazySectionFits]
  split
  case isTrue inside =>
    by_cases loads : (headerAt file index).Loads ∧
        (headerAt file index).scnptr.toNat + (headerAt file index).ssize.toNat ≤ file.length
    · rw [if_pos loads, copy_isSome file loads.1]
      simp [inside, loads.1, loads.2]
    · rw [if_neg loads]
      simpa [inside] using fun first second => absurd ⟨first, second⟩ loads
  case isFalse outside => simp [outside]

theorem reblitSections_isSome (file : List (BitVec 8)) (shadow : Nat → BitVec 8) :
    (reblitSections file shadow).isSome ↔ ∀ index < nscns file, LazySectionFits file index := by
  rw [reblitSections, foldlM_isSome_iff (reblitSection_isSome file)]
  simp

section Machine

variable {δ : Type} {b loaded : Bus δ} {file : List (BitVec 8)}

theorem blitSection_eq (b : Bus δ) (shadow : Nat → BitVec 8) (index : Nat) :
    blitSection b shadow index =
      if (headerAt b.ecoffBytes index).Loads ∧
          (headerAt b.ecoffBytes index).scnptr.toNat + (headerAt b.ecoffBytes index).ssize.toNat ≤
            b.ecoffBytes.length then
        copyBytes b.ecoffBytes shadow
          ((headerAt b.ecoffBytes index).phys - 0x0EC00000#32).toNat
          (headerAt b.ecoffBytes index).scnptr.toNat (headerAt b.ecoffBytes index).ssize.toNat
      else shadow := by
  change (let header := headerAt b.ecoffBytes index
    if header.scnptr = 0 ∨ header.ssize = 0 then shadow
    else if b.ecoffBytes.length < header.scnptr.toNat + header.ssize.toNat then shadow
    else if header.phys < 0x0EC00000#32 ∨ 0x0F000000#32 < header.phys + header.ssize then shadow
    else copyBytes b.ecoffBytes shadow (header.phys - 0x0EC00000#32).toNat
      header.scnptr.toNat header.ssize.toNat) = _
  generalize headerAt b.ecoffBytes index = header
  dsimp only
  by_cases empty : header.scnptr = 0 ∨ header.ssize = 0
  · rw [if_pos empty, if_neg fun loads => loads.1.1 empty]
  rw [if_neg empty]
  by_cases beyond : b.ecoffBytes.length < header.scnptr.toNat + header.ssize.toNat
  · rw [if_pos beyond, if_neg fun loads => absurd loads.2 (Nat.not_le.mpr beyond)]
  rw [if_neg beyond]
  by_cases window : header.phys < 0x0EC00000#32 ∨ 0x0F000000#32 < header.phys + header.ssize
  · rw [if_pos window, if_neg fun loads : header.Loads ∧ _ => loads.1.2 window]
  · rw [if_neg window, if_pos (show header.Loads ∧ _ from ⟨⟨empty, window⟩, Nat.not_lt.mp beyond⟩)]

/-- A round of the lazy loop that stays inside the file and the bank is a round
of the re-blit. -/
theorem blitSection_of_reblitSection {shadow result : Nat → BitVec 8} {index : Nat}
    (copied : reblitSection b.ecoffBytes shadow index = some result) :
    blitSection b shadow index = result := by
  rw [reblitSection_eq] at copied
  split at copied
  case isFalse => simp at copied
  rw [blitSection_eq]
  split at copied
  case isTrue loads =>
    rw [if_pos loads]
    simp only [SectionHeader.copy, copySection, Option.ite_none_right_eq_some,
      Option.some.injEq] at copied
    exact copied.2
  case isFalse skipped =>
    rw [if_neg skipped]
    exact Option.some.inj copied

/-- The shadow bank after the re-blit of `bus_read`. -/
theorem reblit_shadow {shadow : Nat → BitVec 8}
    (copied : reblitSections b.ecoffBytes b.shadow = some shadow) : b.reblit.shadow = shadow := by
  change (List.range (nscns b.ecoffBytes)).foldl (blitSection b) b.shadow = shadow
  unfold reblitSections at copied
  generalize List.range (nscns b.ecoffBytes) = indices at copied ⊢
  generalize b.shadow = start at copied ⊢
  induction indices generalizing start with
  | nil => exact Option.some.inj copied
  | cons index indices ih =>
      rw [List.foldlM_cons] at copied
      obtain ⟨next, round, rest⟩ := Option.bind_eq_some_iff.mp copied
      rw [List.foldl_cons, blitSection_of_reblitSection round]
      exact ih next rest

/-- The bus with an ECOFF image behind the flash window and the given shadow
bank. -/
def Bus.withImage (b : Bus δ) (file : List (BitVec 8)) (shadow : Nat → BitVec 8) : Bus δ :=
  { b with
    hasFlash := true
    shadow := shadow
    flash := redirectStub
      (copyBytes file (fun _ => 0xFF#8) 0 0x140 (min (file.length - 0x140) flashAlloc))
      (ldBe (fun i => file.getD i 0) 0x24 .four)
    flashEntry := ldBe (fun i => file.getD i 0) 0x24 .four
    flashSize := flashAlloc
    ecoffBytes := file }

@[simp] theorem withImage_shadow (b : Bus δ) (file : List (BitVec 8)) (shadow : Nat → BitVec 8) :
    (b.withImage file shadow).shadow = shadow := rfl

@[simp] theorem withImage_ecoffBytes (b : Bus δ) (file : List (BitVec 8))
    (shadow : Nat → BitVec 8) : (b.withImage file shadow).ecoffBytes = file := rfl

@[simp] theorem withImage_flashEntry (b : Bus δ) (file : List (BitVec 8))
    (shadow : Nat → BitVec 8) :
    (b.withImage file shadow).flashEntry = ldBe (fun i => file.getD i 0) 0x24 .four := rfl

/-- What `main` leaves on the bus for an ECOFF file whose sections fit. -/
theorem loadFlash_ecoff {shadow : Nat → BitVec 8} (b : Bus δ) (ecoff : isEcoff file = true)
    (copied : preloadSections file b.shadow = some shadow) :
    loadFlash b file = some (b.withImage file shadow) := by
  have long : 0x140 ≤ file.length := by
    simp only [isEcoff, Bool.and_eq_true, decide_eq_true_eq] at ecoff
    exact ecoff.1.1
  rw [loadFlash, if_pos ecoff, copied, fileWord_of_le file (by omega)]
  rfl

/-- Loading the file over any contents of the shadow bank stays inside the
arrays, and so does the lazy loop over the same contents, with the same
result. -/
def LoadersAgree (b : Bus δ) (file : List (BitVec 8)) : Prop :=
  ∀ shadow, ∃ loaded, loadFlash { b with shadow := shadow } file = some loaded ∧
    reblitSections file shadow = some loaded.shadow

/-- The two section loaders are safe and agree exactly on the files whose
headers and loaded sections lie inside the file and the bank. -/
theorem loadersAgree_iff (b : Bus δ) (ecoff : isEcoff file = true) :
    LoadersAgree b file ↔ SectionsFit file := by
  constructor
  · intro agree
    obtain ⟨loaded, load, -⟩ := agree b.shadow
    rw [loadFlash, if_pos ecoff] at load
    obtain ⟨shadow, copied, -⟩ := Option.bind_eq_some_iff.mp load
    rw [← preloadSections_isSome file b.shadow, copied]
    rfl
  · intro fit shadow
    obtain ⟨result, copied⟩ := Option.isSome_iff_exists.mp
      ((preloadSections_isSome file shadow).mpr fit)
    exact ⟨_, loadFlash_ecoff _ ecoff copied, (reblitSections_of_fit fit shadow).trans copied⟩

/-- A file with one section of four bytes at file offset `0x140`, followed by
`tail` bytes. -/
def oneSectionFile (tail : Nat) : List (BitVec 8) :=
  [0x01#8, 0x60#8, 0x00#8, 0x01#8] ++ List.replicate 0x50 0x00#8 ++
    [0x8E#8, 0xC0#8, 0x00#8, 0x00#8] ++ List.replicate 4 0x00#8 ++
    [0x00#8, 0x00#8, 0x00#8, 0x04#8] ++ [0x00#8, 0x00#8, 0x01#8, 0x40#8] ++
    List.replicate 0xDC 0x00#8 ++ List.replicate tail 0xAA#8

theorem loadersAgree_iff_oneSection :
    LoadersAgree (bareMachine fun _ => 0).bus (oneSectionFile 4) ↔
      SectionsFit (oneSectionFile 4) :=
  loadersAgree_iff _ (by decide +kernel)

/-- The eager loader reads past the end of a file that stops before its
section. -/
theorem preload_overruns_file :
    isEcoff (oneSectionFile 0) = true ∧
      ¬ LoadersAgree (bareMachine fun _ => 0).bus (oneSectionFile 0) := by
  refine ⟨by decide +kernel, fun agree => ?_⟩
  obtain ⟨loaded, load, -⟩ := agree fun _ => 0
  have overrun : (loadFlash { (bareMachine fun _ => 0).bus with shadow := fun _ => 0 }
      (oneSectionFile 0)).isNone := by decide +kernel
  rw [load] at overrun
  cases overrun

end Machine

end Ncd15.Emulator
