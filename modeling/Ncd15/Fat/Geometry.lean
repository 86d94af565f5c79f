import Ncd15.Fat.Coherence

/-!
# Volumes with a sane geometry

The relations between the mount data of a well-formed volume, and the driver state
in which the operations on such a volume run: caches that agree with the disk and a
device that does not fail.
-/

namespace Ncd15.Fat

open Ncd15.Library

/-- The byte offset of an entry in the table, before any wrapping. -/
def Mount.rawOff (m : Mount) (clus : Nat) : Nat :=
  match m.type with
  | .fat16 => clus * 2
  | .fat32 => clus * 4
  | _ => clus + clus / 2

/-- The number of table bytes an entry touches. -/
def Mount.entryWidth (m : Mount) : Nat :=
  match m.type with
  | .fat32 => 4
  | _ => 2

theorem Mount.entryWidth_pos (m : Mount) : 0 < m.entryWidth := by
  unfold Mount.entryWidth
  split <;> decide

/-- The largest value of an entry, plus one. -/
def Mount.entryBound (m : Mount) : Nat :=
  match m.type with
  | .fat16 => 2 ^ 16
  | .fat32 => 2 ^ 28
  | _ => 2 ^ 12

/-- The smallest end-of-chain mark. -/
def Mount.mark (m : Mount) : Nat :=
  match m.type with
  | .fat16 => 0xFFF8
  | .fat32 => 0x0FFFFFF8
  | _ => 0xFF8

/-- The mount data of a well-formed volume on a device of the given capacity. -/
structure Mount.Sane (m : Mount) (capacity : Nat) : Prop where
  valid : m.valid = true
  capacity_lt : capacity < 2 ^ 32
  reserved : 0 < m.rsvdSec
  fats : 0 < m.numFats
  sectors : 0 < m.secPerClus
  sectors_pow : ∃ k, k ≤ 7 ∧ m.secPerClus = 2 ^ k
  rootStart : m.firstRootSec = m.rsvdSec + m.numFats * m.fatSec
  dataStart : m.firstDataSec = m.firstRootSec + m.rootEntCount * 32 / 512
  rootWhole : m.rootEntCount % 16 = 0
  dataFits : m.firstDataSec + m.clusterCount * m.secPerClus ≤ capacity
  covers : ∀ c, c < m.clusterCount + 2 → m.rawOff c + m.entryWidth ≤ m.fatSec * 512
  type_eq : m.type =
    if m.clusterCount < 4085 then .fat12
    else if m.clusterCount < 65525 then .fat16
    else .fat32
  count_le : m.clusterCount ≤ 0x0FFFFFF5
  mirrors : ∀ c, c < m.clusterCount + 2 → m.Straddles c → m.numFats = 2
  fixedRoot : m.type ≠ .fat32 → 0 < m.rootEntCount
  rootClus : m.type = .fat32 →
    m.rootEntCount = 0 ∧ 2 ≤ m.rootClus ∧ m.rootClus < m.clusterCount + 2

/-- The sector cache agrees with the disk. -/
def Driver.SecOk (d : Driver) : Prop :=
  d.secBufValid = true → d.secBuf = d.disk d.secBufLba

theorem readFatSec_secOk : KeptByReads Driver.SecOk := by
  intro lba d secOk ok d' run
  unfold readFatSec at run
  split at run
  · obtain ⟨-, rfl⟩ := Prod.mk.inj (Option.some.inj run)
    exact secOk
  split at run <;> obtain ⟨-, rfl⟩ := Prod.mk.inj (Option.some.inj run) <;> exact secOk

/-- A well-formed geometry, a coherent cache and a device that does not fail. -/
structure Ready (d : Driver) : Prop where
  good : Good d
  sane : d.m.Sane d.blk.capacity

/-- A ready driver whose shared buffer caches nothing. -/
def Free (d : Driver) : Prop := Ready d ∧ d.fatBufValid = false

theorem Free.idle {d : Driver} (free : Free d) : Idle d := ⟨free.1.good.1, free.2⟩

theorem copy_lt {m : Mount} {copy s : Nat} (isCopy : copy < m.numFats)
    (inTable : s < m.fatSec) :
    m.rsvdSec + copy * m.fatSec + s < m.rsvdSec + m.numFats * m.fatSec := by
  have product : (copy + 1) * m.fatSec ≤ m.numFats * m.fatSec :=
    Nat.mul_le_mul_right _ isCopy
  rw [Nat.add_mul, Nat.one_mul] at product
  omega

theorem entryOff_of_lt {m : Mount} {c : Nat} (small : m.rawOff c < 2 ^ 32) :
    m.entryOff c = m.rawOff c := by
  unfold Mount.rawOff at small
  unfold Mount.entryOff Mount.rawOff u32
  cases kind : m.type <;> simp only [kind] at small ⊢ <;> omega

/-- The entry of a cluster lies in the table, whose sectors have 32-bit numbers. -/
structure Mount.Places (m : Mount) (clus : Nat) : Prop where
  small : m.rawOff clus < 2 ^ 32
  covered : m.rawOff clus + m.entryWidth ≤ m.fatSec * 512
  fits : m.rsvdSec + m.fatSec ≤ 2 ^ 32

namespace Mount.Places

variable {m : Mount} {c : Nat}

theorem entryIdx_eq (places : m.Places c) : m.entryIdx c = m.rawOff c % 512 := by
  rw [Mount.entryIdx, entryOff_of_lt places.small]

theorem inTable (places : m.Places c) : m.rawOff c / 512 < m.fatSec := by
  have covered := places.covered
  have width := m.entryWidth_pos
  omega

theorem entryLba_eq (places : m.Places c) : m.entryLba c = m.rsvdSec + m.rawOff c / 512 := by
  have inTable := places.inTable
  have fits := places.fits
  rw [Mount.entryLba, entryOff_of_lt places.small]
  exact u32_of_lt (by omega)

/-- The next sector of the table exists when an entry reaches into it. -/
theorem spill (places : m.Places c) (straddles : m.Straddles c) :
    m.rawOff c / 512 + 1 < m.fatSec := by
  have covered := places.covered
  have last := places.entryIdx_eq.symm.trans straddles.2.2
  have width : m.entryWidth = 2 := by
    unfold Mount.entryWidth
    split
    · rename_i type
      exact absurd type straddles.2.1
    · rfl
  omega

theorem succ_eq (places : m.Places c) (straddles : m.Straddles c) :
    u32 (m.entryLba c + 1) = m.rsvdSec + (m.rawOff c / 512 + 1) := by
  have spill := places.spill straddles
  have fits := places.fits
  rw [places.entryLba_eq]
  exact u32_of_lt (by omega)

end Mount.Places

namespace Mount.Sane

variable {m : Mount} {capacity c : Nat}

theorem clusEnd_eq (sane : m.Sane capacity) : m.clusEnd = m.clusterCount + 2 := by
  have small := sane.count_le
  exact u32_of_lt (by omega)

theorem fatSec_le (sane : m.Sane capacity) : m.rsvdSec + m.numFats * m.fatSec ≤ capacity := by
  have fits := sane.dataFits
  have root := sane.rootStart
  have data := sane.dataStart
  omega

theorem rawOff_lt (sane : m.Sane capacity) (inRange : c < m.clusterCount + 2) :
    m.rawOff c < 2 ^ 32 - 4 := by
  have small := sane.count_le
  unfold Mount.rawOff
  split <;> omega

theorem places (sane : m.Sane capacity) (inRange : c < m.clusterCount + 2) : m.Places c := by
  have small := sane.rawOff_lt inRange
  have fits := sane.fatSec_le
  have bound := sane.capacity_lt
  have first := Nat.mul_le_mul_right m.fatSec sane.fats
  exact ⟨by omega, sane.covers c inRange, by omega⟩

end Mount.Sane

section Lbas

variable {m : Mount} {b : BlkDev}

theorem has_of_lt (sane : m.Sane b.capacity) {lba : Nat} (inside : lba < b.capacity) :
    b.Has lba := by
  have bound := sane.capacity_lt
  exact ⟨by omega, inside⟩

end Lbas

/-- A step that changes only the shared buffer and its tag. -/
structure CacheStep (d d' : Driver) : Prop where
  blk : d'.blk = d.blk
  m : d'.m = d.m
  secBuf : d'.secBuf = d.secBuf
  secBufLba : d'.secBufLba = d.secBufLba
  secBufValid : d'.secBufValid = d.secBufValid
  good : Good d'

namespace CacheStep

variable {d d' d'' : Driver}

theorem refl (good : Good d) : CacheStep d d := ⟨rfl, rfl, rfl, rfl, rfl, good⟩

theorem trans (first : CacheStep d d') (second : CacheStep d' d'') : CacheStep d d'' :=
  ⟨second.blk.trans first.blk, second.m.trans first.m, second.secBuf.trans first.secBuf,
    second.secBufLba.trans first.secBufLba, second.secBufValid.trans first.secBufValid,
    second.good⟩

theorem disk (step : CacheStep d d') : d'.disk = d.disk := congrArg BlkDev.sec step.blk

theorem has {lba : Nat} (step : CacheStep d d') (has : d.blk.Has lba) : d'.blk.Has lba := by
  rwa [step.blk]

theorem secOk (step : CacheStep d d') (secOk : d.SecOk) : d'.SecOk := by
  intro valid
  rw [step.disk, step.secBuf, step.secBufLba]
  exact secOk (step.secBufValid.symm.trans valid)

theorem ready (step : CacheStep d d') (ready : Ready d) : Ready d' where
  good := step.good
  sane := by rw [step.blk, step.m]; exact ready.sane

end CacheStep

/-- A step that writes the disk: it leaves the shared buffer free. -/
structure DiskStep (d d' : Driver) : Prop where
  m : d'.m = d.m
  capacity : d'.blk.capacity = d.blk.capacity
  secOk : d.SecOk → d'.SecOk
  free : Free d'

namespace DiskStep

variable {d d' d'' : Driver}

theorem refl (free : Free d) : DiskStep d d :=
  ⟨rfl, rfl, id, free⟩

theorem has {lba : Nat} (step : DiskStep d d') (has : d.blk.Has lba) : d'.blk.Has lba := by
  rwa [BlkDev.Has, step.capacity]

theorem trans (first : DiskStep d d') (second : DiskStep d' d'') : DiskStep d d'' :=
  ⟨second.m.trans first.m, second.capacity.trans first.capacity,
    fun secOk => second.secOk (first.secOk secOk), second.free⟩

theorem of_cache (first : CacheStep d d') (second : DiskStep d' d'') : DiskStep d d'' :=
  ⟨second.m.trans first.m, second.capacity.trans (congrArg BlkDev.capacity first.blk),
    fun secOk => second.secOk (first.secOk secOk), second.free⟩

end DiskStep

section PrimitiveRuns

variable {d : Driver}

theorem mount_run (d : Driver) : mount d = some (d.m, d) := rfl

theorem wbuf_run (d : Driver) : wbuf d = some (d.fatWbuf, d) := rfl

theorem invalidate_run (d : Driver) :
    invalidate d = some ((), { d with fatBufValid := false }) := rfl

theorem editWbuf_run (edit : Sector → Sector) (d : Driver) :
    editWbuf edit d = some ((), { d with fatWbuf := edit d.fatWbuf }) := rfl

theorem Ready.invalidated (ready : Ready d) : Free { d with fatBufValid := false } :=
  ⟨⟨⟨⟨ready.good.1.sound, ready.good.1.faults⟩, fun absurd => by simp at absurd⟩, ready.sane⟩,
    rfl⟩

theorem loadWbuf_run {lba : Nat} (has : d.blk.Has lba) :
    loadWbuf lba d = some (true, { d with fatWbuf := d.disk lba }) :=
  if_pos has

theorem Free.edited (free : Free d) (s : Sector) : Free { d with fatWbuf := s } :=
  ⟨⟨⟨⟨free.1.good.1.sound, free.1.good.1.faults⟩, fun valid => by simp [free.2] at valid⟩,
    free.1.sane⟩, free.2⟩

theorem writeWbuf_run (free : Free d) {lba : Nat} (has : d.blk.Has lba) :
    ∃ d', writeWbuf lba d = some (true, d') ∧ DiskStep d d' ∧
      d'.disk = Function.update d.disk lba d.fatWbuf ∧ d'.fatWbuf = d.fatWbuf := by
  obtain ⟨⟨good, sane⟩, idle⟩ := free
  have faults := good.1.faults
  have noFault : ¬ d.blk.Faulty := by simp [BlkDev.Faulty, faults]
  have healthy : (d.stored lba d.fatWbuf).Healthy :=
    ⟨good.1.sound, by simp [Driver.stored, BlkDev.put, faults]⟩
  have invalid : (d.stored lba d.fatWbuf).fatBufValid = false := by simp [Driver.stored, idle]
  have free' : Free (d.stored lba d.fatWbuf) :=
    ⟨⟨⟨healthy, fun valid => by simp [invalid] at valid⟩, sane⟩, invalid⟩
  refine ⟨d.stored lba d.fatWbuf, ?_, ⟨rfl, rfl, ?_, free'⟩, rfl, rfl⟩
  · rw [writeWbuf, if_neg (not_not.mpr has), if_neg noFault]
  · intro secOk valid
    simp only [Driver.stored, Bool.and_eq_true, decide_eq_true_eq] at valid
    have old := secOk valid.1
    simp only [Driver.stored, BlkDev.put, Driver.disk, Function.update_of_ne valid.2]
    exact old

theorem updateSec_run (free : Free d) {lba : Nat} (has : d.blk.Has lba)
    (held : d.fatWbuf = d.disk lba) (edit : Sector → Sector) :
    ∃ d', updateSec lba edit d = some (true, d') ∧ DiskStep d d' ∧
      d'.disk = Function.update d.disk lba (edit (d.disk lba)) ∧
      d'.fatWbuf = edit (d.disk lba) := by
  have noted : noteUpdate lba edit d = some ((), d) := by
    have kept : (d.lostUpdate || decide (edit d.fatWbuf ≠ edit (d.disk lba))) =
        d.lostUpdate := by
      simp [held]
    rw [noteUpdate, kept]
  obtain ⟨d', run, step, disk, buf⟩ := writeWbuf_run (free.edited (edit d.fatWbuf)) has
  refine ⟨d', ?_, ⟨step.m, step.capacity, step.secOk, step.free⟩, ?_, ?_⟩
  · rw [updateSec, Prog.bind_eq_of_run noted]
    exact run
  · rw [disk, ← held]
  · rw [buf, ← held]

theorem loadWbuf_then_run {lba : Nat} (has : d.blk.Has lba) {α : Type} (failed : α)
    (next : DriverM α) :
    (do if !(← loadWbuf lba) then pure failed else next) d =
      next { d with fatWbuf := d.disk lba } :=
  Prog.bind_eq_of_run (loadWbuf_run has)

theorem updateSec_then_run (free : Free d) {lba : Nat} (has : d.blk.Has lba)
    (held : d.fatWbuf = d.disk lba) (edit : Sector → Sector) {α : Type} (failed : α)
    (next : DriverM α) :
    ∃ d', DiskStep d d' ∧ d'.disk = Function.update d.disk lba (edit (d.disk lba)) ∧
      d'.fatWbuf = edit (d.disk lba) ∧
      (do if !(← updateSec lba edit) then pure failed else next) d = next d' := by
  obtain ⟨d', run, step, disk, buf⟩ := updateSec_run free has held edit
  exact ⟨d', step, disk, buf, Prog.bind_eq_of_run run⟩

theorem DiskStep.of_edited {d' : Driver} {s : Sector}
    (step : DiskStep { d with fatWbuf := s } d') : DiskStep d d' :=
  ⟨step.m, step.capacity, step.secOk, step.free⟩

theorem loadUpdate_then_run (free : Free d) {lba : Nat} (has : d.blk.Has lba)
    (edit : Sector → Sector) {α : Type} (failed : α) (next : DriverM α) :
    ∃ d', DiskStep d d' ∧ d'.disk = Function.update d.disk lba (edit (d.disk lba)) ∧
      (do if !(← loadWbuf lba) then pure failed
          else if !(← updateSec lba edit) then pure failed else next) d = next d' := by
  obtain ⟨d', step, disk, -, run⟩ :=
    updateSec_then_run (free.edited (d.disk lba)) has rfl edit failed next
  exact ⟨d', step.of_edited, disk, (loadWbuf_then_run has failed _).trans run⟩

end PrimitiveRuns

end Ncd15.Fat
