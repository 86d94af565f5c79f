import Ncd15.Fat.SharedBufferRuns

/-!
# Changing one entry

What `fat_set_entry` does on every volume that `fat_mount` accepts, whatever the
number of copies of the table, and when that is the change of one entry in all of
them.  The code for a 12-bit entry that spans two sectors writes two copies, not
`num_fats`.
-/

namespace Ncd15.Fat

open Ncd15.Library

section Volumes

/-- The mount data of an accepted volume whose table covers its clusters. -/
structure Mount.Volume (m : Mount) : Prop where
  accepted : ∃ d d', fatMount d = some (0, d') ∧ m = d'.m
  covers : ∀ c, c < m.clusterCount + 2 → m.rawOff c + m.entryWidth ≤ m.fatSec * 512
  /-- The sectors of a volume have 32-bit numbers. -/
  addressed : m.rsvdSec + m.numFats * m.fatSec + m.clusterCount * m.secPerClus < 2 ^ 32

/-- A cluster of the volume whose number fits in an entry. -/
def Mount.Numbered (m : Mount) (c : Nat) : Prop := m.IsCluster c ∧ c < m.entryBound

theorem bootError_eq_none {m : Mount} (accepted : m.bootError = none) :
    0 < m.secPerClus ∧ 0 < m.numFats := by
  unfold Mount.bootError at accepted
  split at accepted
  · simp at accepted
  split at accepted
  · simp at accepted
  split at accepted
  · simp at accepted
  · omega

theorem bootError_ne_zero {m : Mount} {code : Int} (error : m.bootError = some code) :
    code ≠ 0 := by
  unfold Mount.bootError at error
  split at error
  · simp at error
    omega
  split at error
  · simp at error
    omega
  split at error
  · simp at error
    omega
  · simp at error

@[simp] theorem extended_secPerClus (m : Mount) (bpb : Sector) :
    (m.extended bpb).secPerClus = m.secPerClus := by
  unfold Mount.extended
  split <;> rfl

@[simp] theorem extended_numFats (m : Mount) (bpb : Sector) :
    (m.extended bpb).numFats = m.numFats := by
  unfold Mount.extended
  split <;> rfl

@[simp] theorem extended_rsvdSec (m : Mount) (bpb : Sector) :
    (m.extended bpb).rsvdSec = m.rsvdSec := by
  unfold Mount.extended
  split <;> rfl

@[simp] theorem derived_rsvdSec (m : Mount) : m.derived.rsvdSec = m.rsvdSec := rfl

@[simp] theorem derived_secPerClus (m : Mount) : m.derived.secPerClus = m.secPerClus := rfl

@[simp] theorem derived_numFats (m : Mount) : m.derived.numFats = m.numFats := rfl

/-- What `fat_mount` has checked and computed when it returns 0. -/
theorem fatMount_mounts {d d' : Driver} (run : fatMount d = some (0, d')) :
    ∃ m : Mount, (m.copyBoot (d.disk 0)).bootError = none ∧
      d'.m = ((m.copyBoot (d.disk 0)).extended (d.disk 0)).derived := by
  obtain ⟨_, d₁, start, run⟩ := Prog.bind_eq_some run
  obtain ⟨-, rfl⟩ := Prod.mk.inj (Option.some.inj start)
  obtain ⟨boot, d₂, read, run⟩ := Prog.bind_eq_some run
  rw [readSec, if_neg (by simp [Driver.unmounted])] at read
  by_cases has : d.unmounted.blk.Has 0
  · rw [if_pos has] at read
    obtain ⟨rfl, rfl⟩ := Prod.mk.inj (Option.some.inj read)
    dsimp only at run
    split at run
    · have code := congrArg Prod.fst (Option.some.inj run)
      simp at code
    obtain ⟨_, d₃, copy, run⟩ := Prog.bind_eq_some run
    obtain ⟨-, rfl⟩ := Prod.mk.inj (Option.some.inj copy)
    obtain ⟨m, d₄, got, run⟩ := Prog.bind_eq_some run
    obtain ⟨rfl, rfl⟩ := Prod.mk.inj (Option.some.inj got)
    refine ⟨d.unmounted.m, ?_⟩
    cases error : (d.unmounted.m.copyBoot (d.unmounted.disk 0)).bootError with
    | some code =>
        simp only [error] at run
        have same := congrArg Prod.fst (Option.some.inj run)
        exact absurd same (bootError_ne_zero error)
    | none =>
        simp only [error] at run
        exact ⟨error, (congrArg (fun r => r.2.m) (Option.some.inj run)).symm⟩
  · rw [if_neg has] at read
    obtain ⟨rfl, rfl⟩ := Prod.mk.inj (Option.some.inj read)
    have code := congrArg Prod.fst (Option.some.inj run)
    simp at code

/-- `fat_mount` leaves the device alone. -/
theorem fatMount_blk {d d' : Driver} {code : Int} (run : fatMount d = some (code, d')) :
    d'.blk = d.blk := by
  obtain ⟨_, d₁, start, run⟩ := Prog.bind_eq_some run
  obtain ⟨-, rfl⟩ := Prod.mk.inj (Option.some.inj start)
  obtain ⟨boot, d₂, read, run⟩ := Prog.bind_eq_some run
  have kept : d₂.blk = d.blk := by
    rw [readSec, if_neg (by simp [Driver.unmounted])] at read
    split at read
    · obtain ⟨-, rfl⟩ := Prod.mk.inj (Option.some.inj read)
      rfl
    · obtain ⟨-, rfl⟩ := Prod.mk.inj (Option.some.inj read)
      rfl
  rw [← kept]
  cases boot with
  | none =>
      obtain ⟨-, rfl⟩ := Prod.mk.inj (Option.some.inj run)
      rfl
  | some boot =>
      dsimp only at run
      split at run
      · obtain ⟨-, rfl⟩ := Prod.mk.inj (Option.some.inj run)
        rfl
      obtain ⟨_, d₃, copy, run⟩ := Prog.bind_eq_some run
      obtain ⟨-, rfl⟩ := Prod.mk.inj (Option.some.inj copy)
      obtain ⟨m, d₄, got, run⟩ := Prog.bind_eq_some run
      obtain ⟨rfl, rfl⟩ := Prod.mk.inj (Option.some.inj got)
      cases error : d₂.m.copyBoot boot |>.bootError with
      | some code =>
          simp only [error] at run
          obtain ⟨-, rfl⟩ := Prod.mk.inj (Option.some.inj run)
          rfl
      | none =>
          simp only [error] at run
          obtain ⟨-, rfl⟩ := Prod.mk.inj (Option.some.inj run)
          rfl

/-- `fat_mount` accepts only a volume with sectors in its clusters and a table. -/
theorem fatMount_accepts {d d' : Driver} (run : fatMount d = some (0, d')) :
    0 < d'.m.secPerClus ∧ 0 < d'.m.numFats := by
  obtain ⟨m, accepted, mounted⟩ := fatMount_mounts run
  have positive := bootError_eq_none accepted
  rw [mounted]
  simpa using positive

variable {m : Mount} {c : Nat}

theorem rawOff_lt_of_bound (small : c < m.entryBound) : m.rawOff c < 2 ^ 31 := by
  unfold Mount.entryBound at small
  unfold Mount.rawOff
  cases kind : m.type <;> simp only [kind] at small ⊢ <;> omega

/-- The sectors that `fat_set_entry` writes for a cluster lie below a bound, so that their
numbers do not wrap.  For an entry that spans sectors these are the first two copies. -/
structure Mount.Served (m : Mount) (bound c : Nat) : Prop where
  places : m.Places c
  fats : 0 < m.numFats
  bound_le : bound ≤ 2 ^ 32
  copies : ∀ k, k < m.numFats → m.rsvdSec + k * m.fatSec + m.rawOff c / 512 < bound
  spans : m.Straddles c → m.rsvdSec + 1 * m.fatSec + (m.rawOff c / 512 + 1) < bound

namespace Mount.Served

variable {bound : Nat}

theorem copy_eq (served : m.Served bound c) {k : Nat} (isCopy : k < m.numFats) :
    u32 (m.rsvdSec + m.rawOff c / 512 + k * m.fatSec) =
      m.rsvdSec + k * m.fatSec + m.rawOff c / 512 := by
  have most := served.bound_le
  have small := served.copies k isCopy
  rw [u32_of_lt (by omega)]
  omega

theorem mirror_eq (served : m.Served bound c) (straddles : m.Straddles c) :
    u32 (m.entryLba c + m.fatSec) = m.rsvdSec + 1 * m.fatSec + m.rawOff c / 512 := by
  have most := served.bound_le
  have small := served.spans straddles
  rw [served.places.entryLba_eq, u32_of_lt (by omega)]
  omega

theorem mirrorSucc_eq (served : m.Served bound c) (straddles : m.Straddles c) :
    u32 (m.entryLba c + m.fatSec + 1) =
      m.rsvdSec + 1 * m.fatSec + (m.rawOff c / 512 + 1) := by
  have most := served.bound_le
  have small := served.spans straddles
  rw [served.places.entryLba_eq, u32_of_lt (by omega)]
  omega

end Mount.Served

namespace Mount.Volume

theorem fats (volume : m.Volume) : 0 < m.numFats := by
  obtain ⟨d, d', run, rfl⟩ := volume.accepted
  exact (fatMount_accepts run).2

theorem sectors (volume : m.Volume) : 0 < m.secPerClus := by
  obtain ⟨d, d', run, rfl⟩ := volume.accepted
  exact (fatMount_accepts run).1

theorem fits (volume : m.Volume) : m.rsvdSec + m.numFats * m.fatSec ≤ 2 ^ 32 := by
  have addressed := volume.addressed
  omega

theorem places (volume : m.Volume) (numbered : m.Numbered c) : m.Places c := by
  have small := rawOff_lt_of_bound numbered.2
  have fits := volume.fits
  have first := Nat.mul_le_mul_right m.fatSec volume.fats
  exact ⟨by omega, volume.covers c numbered.1.2, by omega⟩

/-- A 12-bit entry that spans sectors has a number of at least 341, and there are
about as many sectors of data behind the table. -/
theorem served (volume : m.Volume) (numbered : m.Numbered c) : m.Served (2 ^ 32 - 1) c := by
  have places := volume.places numbered
  have addressed := volume.addressed
  have clusters := Nat.mul_le_mul_left m.clusterCount volume.sectors
  have first := Nat.mul_le_mul_right m.fatSec volume.fats
  have range := numbered.1.2
  refine ⟨places, volume.fats, by decide, ?_, ?_⟩
  · intro k isCopy
    have table := copy_lt isCopy places.inTable
    have positive := numbered.1.1
    omega
  · intro straddles
    have last := places.entryIdx_eq.symm.trans straddles.2.2
    have off : m.rawOff c = c + c / 2 := rawOff_narrow ⟨straddles.1, straddles.2.1⟩
    omega

end Mount.Volume

end Volumes

section Success

/-- What the steps of `fat_set_entry` leave as it is. -/
structure EntryStep (d d' : Driver) : Prop where
  m : d'.m = d.m
  capacity : d'.blk.capacity = d.blk.capacity
  free : d.fatBufValid = false → d'.fatBufValid = false

variable {d d' : Driver} {lba : Nat}

theorem EntryStep.refl (d : Driver) : EntryStep d d := ⟨rfl, rfl, id⟩

theorem EntryStep.trans {d₁ : Driver} (first : EntryStep d d₁) (second : EntryStep d₁ d') :
    EntryStep d d' :=
  ⟨second.m.trans first.m, second.capacity.trans first.capacity,
    fun free => second.free (first.free free)⟩

theorem loadWbuf_then_success {next : DriverM Bool}
    (run : (do if !(← loadWbuf lba) then pure false else next) d = some (true, d')) :
    d.blk.Has lba ∧ next { d with fatWbuf := d.disk lba } = some (true, d') := by
  by_cases has : d.blk.Has lba
  · rw [loadWbuf_then_run has] at run
    exact ⟨has, run⟩
  · have failed : loadWbuf lba d = some (false, d) := if_neg has
    rw [Prog.bind_eq_of_run failed] at run
    have value := congrArg Prod.fst (Option.some.inj run)
    simp at value

theorem writeWbuf_success (run : writeWbuf lba d = some (true, d')) :
    d.blk.Has lba ∧ d' = d.stored lba d.fatWbuf := by
  unfold writeWbuf at run
  split at run
  · have value := congrArg Prod.fst (Option.some.inj run)
    simp at value
  split at run
  · have value := congrArg Prod.fst (Option.some.inj run)
    simp at value
  · rename_i has _
    exact ⟨not_not.mp has, (congrArg Prod.snd (Option.some.inj run)).symm⟩

theorem stored_entryStep (d : Driver) (lba : Nat) (s : Sector) : EntryStep d (d.stored lba s) :=
  ⟨rfl, rfl, fun free => by simp [Driver.stored, free]⟩

theorem updateSec_success {edit : Sector → Sector}
    (run : updateSec lba edit d = some (true, d')) :
    d.blk.Has lba ∧ EntryStep d d' ∧
      d'.disk = Function.update d.disk lba (edit d.fatWbuf) ∧ d'.fatWbuf = edit d.fatWbuf := by
  obtain ⟨has, rfl⟩ := writeWbuf_success run
  exact ⟨has, ⟨rfl, rfl, fun free => by simp [Driver.stored, free]⟩, rfl, rfl⟩

theorem updateSec_then_success {edit : Sector → Sector} {next : DriverM Bool}
    (run : (do if !(← updateSec lba edit) then pure false else next) d = some (true, d')) :
    ∃ d₁, d.blk.Has lba ∧ EntryStep d d₁ ∧
      d₁.disk = Function.update d.disk lba (edit d.fatWbuf) ∧ d₁.fatWbuf = edit d.fatWbuf ∧
      next d₁ = some (true, d') := by
  obtain ⟨ok, d₁, first, rest⟩ := Prog.bind_eq_some run
  cases ok with
  | false =>
      have value := congrArg Prod.fst (Option.some.inj rest)
      simp at value
  | true =>
      obtain ⟨has, step, disk, buf⟩ := updateSec_success first
      exact ⟨d₁, has, step, disk, buf, rest⟩

theorem writeEach_success {ι : Type} {items : List ι} {lba : ι → Nat}
    (run : Prog.firstOf (fun i => do pure (if ← writeWbuf (lba i) then none else some ())) items d =
      some (none, d')) :
    EntryStep d d' ∧ d'.disk = fun x => if x ∈ items.map lba then d.fatWbuf else d.disk x := by
  induction items generalizing d with
  | nil =>
      obtain rfl : d = d' := congrArg Prod.snd (Option.some.inj run)
      exact ⟨EntryStep.refl d, by simp⟩
  | cons i rest ih =>
      obtain ⟨found, d₁, first, run⟩ := Prog.bind_eq_some run
      obtain ⟨ok, d₂, write, result⟩ := Prog.bind_eq_some first
      obtain ⟨rfl, rfl⟩ := Prod.mk.inj (Option.some.inj result)
      cases ok with
      | false =>
          have value := congrArg Prod.fst (Option.some.inj run)
          simp at value
      | true =>
          obtain ⟨-, rfl⟩ := writeWbuf_success write
          obtain ⟨step, disk⟩ := ih run
          refine ⟨(stored_entryStep d _ _).trans step, ?_⟩
          have written : (d.stored (lba i) d.fatWbuf).disk =
              Function.update d.disk (lba i) d.fatWbuf := rfl
          have held : (d.stored (lba i) d.fatWbuf).fatWbuf = d.fatWbuf := rfl
          rw [disk, written, held]
          funext x
          by_cases last : x ∈ rest.map lba
          · simp [last]
          · rw [if_neg last, Function.update_apply, List.map_cons]
            by_cases first : x = lba i
            · rw [if_pos first, if_pos (List.mem_cons.mpr (Or.inl first))]
            · rw [if_neg first, if_neg (List.not_mem_cons_of_ne_of_not_mem first last)]

theorem mirrorFat_success {m : Mount} (run : mirrorFat m lba d = some (true, d')) :
    EntryStep d d' ∧
      (∀ k, 0 < k → k < m.numFats → d'.disk (u32 (lba + k * m.fatSec)) = d.fatWbuf) ∧
      ∀ x, (∀ k, 0 < k → k < m.numFats → x ≠ u32 (lba + k * m.fatSec)) →
        d'.disk x = d.disk x := by
  obtain ⟨failed, d₁, each, result⟩ := Prog.bind_eq_some run
  obtain ⟨none, rfl⟩ := Prod.mk.inj (Option.some.inj result)
  obtain rfl : failed = Option.none := Option.isNone_iff_eq_none.mp none
  obtain ⟨step, disk⟩ := writeEach_success each
  have copies (k : Nat) : k ∈ List.range' 1 (m.numFats - 1) ↔ 0 < k ∧ k < m.numFats := by
    rw [List.mem_range'_1]
    omega
  refine ⟨step, ?_, ?_⟩
  · intro k positive isCopy
    rw [disk]
    exact if_pos (List.mem_map.mpr ⟨k, (copies k).mpr ⟨positive, isCopy⟩, rfl⟩)
  · intro x apart
    rw [disk]
    refine if_neg fun mem => ?_
    obtain ⟨k, inRange, same⟩ := List.mem_map.mp mem
    have range := (copies k).mp inRange
    exact apart k range.1 range.2 same.symm

end Success

section Written

variable {d d' : Driver} {c value : Nat}

theorem EntryStep.has {lba : Nat} (step : EntryStep d d') (has : d'.blk.Has lba) :
    d.blk.Has lba := by
  rwa [BlkDev.Has, ← step.capacity]

/-- The disk after the four writes of `fat_set_entry` for an entry that spans sectors,
wherever they go. -/
def Mount.fourWrites (m : Mount) (clus value : Nat) (disk : Nat → Sector) : Nat → Sector :=
  let lba := m.entryLba clus
  let first := low12 clus value ((disk lba).get (m.entryIdx clus))
  let put (lba : Nat) (edit : Sector → Sector) (disk : Nat → Sector) :=
    Function.update disk lba (edit (disk lba))
  put (u32 (lba + m.fatSec + 1)) (editSpill clus value)
    (put (u32 (lba + m.fatSec)) (·.blit (m.entryIdx clus) [first])
      (put (u32 (lba + 1)) (editSpill clus value)
        (put lba (·.blit (m.entryIdx clus) [first]) disk)))

theorem fatSetStraddled_stored {m : Mount} (held : d.fatWbuf = d.disk (m.entryLba c))
    (run : fatSetStraddled m c value d = some (true, d')) :
    d.blk.Has (u32 (m.entryLba c + 1)) ∧ EntryStep d d' ∧
      d'.disk = m.fourWrites c value d.disk := by
  rw [fatSetStraddled, Prog.bind_eq_of_run (wbuf_run d), held] at run
  obtain ⟨d₁, -, step₁, disk₁, -, run⟩ := updateSec_then_success run
  obtain ⟨has₂, run⟩ := loadWbuf_then_success run
  obtain ⟨d₂, -, step₂, disk₂, -, run⟩ := updateSec_then_success run
  obtain ⟨-, run⟩ := loadWbuf_then_success run
  obtain ⟨d₃, -, step₃, disk₃, -, run⟩ := updateSec_then_success run
  obtain ⟨-, run⟩ := loadWbuf_then_success run
  obtain ⟨-, step₄, disk₄, -⟩ := updateSec_success run
  have loaded {d : Driver} {s : Sector} {d' : Driver}
      (step : EntryStep { d with fatWbuf := s } d') : EntryStep d d' :=
    ⟨step.m, step.capacity, step.free⟩
  refine ⟨step₁.has has₂,
    ((step₁.trans (loaded step₂)).trans (loaded step₃)).trans (loaded step₄), ?_⟩
  rw [disk₄]
  simp only [Driver.disk] at disk₁ disk₂ disk₃ held ⊢
  rw [disk₃, disk₂, disk₁, held]
  rfl

/-- A successful `fat_set_entry` leaves the shared buffer free. -/
theorem fatSetEntry_step (run : fatSetEntry c value d = some (true, d')) :
    EntryStep d.invalidated d' := by
  rw [fatSetEntry, Prog.bind_eq_of_run (mount_run d),
    Prog.bind_eq_of_run (invalidate_run d)] at run
  obtain ⟨-, run⟩ := loadWbuf_then_success run
  by_cases straddles : d.m.Straddles c
  · rw [if_pos straddles] at run
    obtain ⟨-, step, -⟩ := fatSetStraddled_stored
      (d := { d.invalidated with fatWbuf := d.disk (d.m.entryLba c) }) rfl run
    exact ⟨step.m, step.capacity, step.free⟩
  · rw [if_neg straddles] at run
    obtain ⟨d₁, -, step₁, -, -, run⟩ := updateSec_then_success run
    obtain ⟨step₂, -⟩ := mirrorFat_success run
    exact ⟨step₂.m.trans step₁.m, step₂.capacity.trans step₁.capacity,
      fun free => step₂.free (step₁.free free)⟩

theorem fourWrites_eq {m : Mount} {bound : Nat} {disk : Nat → Sector}
    (served : m.Served bound c) (straddles : m.Straddles c) :
    m.fourWrites c value disk = m.straddledDisk c value (m.rawOff c / 512) disk := by
  unfold Mount.fourWrites
  dsimp only
  rw [served.places.succ_eq straddles, served.mirror_eq straddles,
    served.mirrorSucc_eq straddles, served.places.entryLba_eq, straddles.2.2]
  rfl

/-- The change of an entry on a disk, and what it leaves. -/
structure EntryWritten (clus value : Nat) (d d' : Driver) : Prop where
  hasEntry : d.HasEntry clus
  m : d'.m = d.m
  capacity : d'.blk.capacity = d.blk.capacity
  free : d'.fatBufValid = false
  write : TableWrite d.m clus value d.disk d'.disk

theorem fatSetEntry_straddled {bound : Nat} (served : d.m.Served bound c)
    (straddles : d.m.Straddles c) (run : fatSetEntry c value d = some (true, d')) :
    d.HasEntry c ∧ EntryStep d.invalidated d' ∧
      d'.disk = d.m.straddledDisk c value (d.m.rawOff c / 512) d.disk := by
  rw [fatSetEntry, Prog.bind_eq_of_run (mount_run d),
    Prog.bind_eq_of_run (invalidate_run d)] at run
  obtain ⟨has, run⟩ := loadWbuf_then_success run
  rw [if_pos straddles] at run
  obtain ⟨hasNext, step, disk⟩ := fatSetStraddled_stored
    (d := { d.invalidated with fatWbuf := d.disk (d.m.entryLba c) }) rfl run
  exact ⟨⟨has, fun _ => hasNext⟩, ⟨step.m, step.capacity, step.free⟩,
    disk.trans (fourWrites_eq served straddles)⟩

theorem fatSetEntry_success {bound : Nat} (served : d.m.Served bound c)
    (copies : d.m.Straddles c → d.m.numFats = 2)
    (run : fatSetEntry c value d = some (true, d')) : EntryWritten c value d d' := by
  have places := served.places
  have inTable := places.inTable
  by_cases straddles : d.m.Straddles c
  · obtain ⟨hasEntry, step, disk⟩ := fatSetEntry_straddled served straddles run
    refine ⟨hasEntry, step.m, step.capacity, step.free rfl, ?_⟩
    rw [disk]
    exact tableWrite_straddled (copies straddles) (places.spill straddles)
      ⟨straddles.1, straddles.2.1⟩ (places.entryIdx_eq.symm.trans straddles.2.2)
  · rw [fatSetEntry, Prog.bind_eq_of_run (mount_run d),
      Prog.bind_eq_of_run (invalidate_run d)] at run
    obtain ⟨has, run⟩ := loadWbuf_then_success run
    rw [if_neg straddles, places.entryLba_eq] at run
    obtain ⟨d₁, -, step₁, disk₁, buf₁, run⟩ := updateSec_then_success run
    obtain ⟨step₂, mirrors, rest⟩ := mirrorFat_success run
    have lba (k : Nat) (isCopy : k < d.m.numFats) :
        u32 (d.m.rsvdSec + d.m.rawOff c / 512 + k * d.m.fatSec) =
          d.m.rsvdSec + k * d.m.fatSec + d.m.rawOff c / 512 :=
      served.copy_eq isCopy
    refine ⟨⟨has, fun span => absurd span straddles⟩, step₂.m.trans step₁.m,
      step₂.capacity.trans step₁.capacity, step₂.free (step₁.free rfl), ?_⟩
    apply tableWrite_whole served.fats places.entryIdx_eq straddles inTable
    · intro k isCopy
      rcases Nat.eq_zero_or_pos k with zero | other
      · rw [zero, Nat.zero_mul, Nat.add_zero, rest, disk₁]
        · exact Function.update_self _ _ d.disk
        · intro k other isCopy
          rw [lba k isCopy]
          exact first_copy_ne inTable inTable other
      · rw [← lba k isCopy, mirrors k other isCopy, buf₁]
    · intro x apart
      have first := apart 0 served.fats
      rw [Nat.zero_mul, Nat.add_zero] at first
      rw [rest, disk₁]
      · exact Function.update_of_ne first _ d.disk
      · intro k _ isCopy
        rw [lba k isCopy]
        exact apart k isCopy

end Written

section Runs

variable {d : Driver} {c value lba : Nat} {α : Type}

/-- A device that does not fail and keeps its size. -/
def Driver.Lasts (capacity : Nat) (d : Driver) : Prop :=
  d.blk.capacity = capacity ∧ d.blk.faults = []

variable {capacity : Nat}

theorem Driver.Lasts.has (lasts : d.Lasts capacity) (small : capacity < 2 ^ 32)
    (inside : lba < capacity) : d.blk.Has lba := by
  have size := lasts.1
  exact ⟨by omega, by omega⟩

theorem writeWbuf_lasts (lasts : d.Lasts capacity) (has : d.blk.Has lba) :
    ∃ d₁, writeWbuf lba d = some (true, d₁) ∧ d₁.Lasts capacity := by
  have noFault : ¬ d.blk.Faulty := by simp [BlkDev.Faulty, lasts.2]
  refine ⟨d.stored lba d.fatWbuf, ?_, lasts.1, ?_⟩
  · exact (if_neg (not_not.mpr has)).trans (if_neg noFault)
  · simp [Driver.stored, BlkDev.put, lasts.2]

theorem updateSec_lasts (lasts : d.Lasts capacity) (has : d.blk.Has lba)
    (edit : Sector → Sector) :
    ∃ d₁, updateSec lba edit d = some (true, d₁) ∧ d₁.Lasts capacity := by
  let noted : Driver :=
    { d with fatWbuf := edit d.fatWbuf
             lostUpdate := d.lostUpdate || edit d.fatWbuf ≠ edit (d.disk lba) }
  exact writeWbuf_lasts (d := noted) lasts has

theorem updateSec_then_lasts (lasts : d.Lasts capacity) (has : d.blk.Has lba)
    (edit : Sector → Sector) (failed : α) (next : DriverM α) :
    ∃ d₁, d₁.Lasts capacity ∧
      (do if !(← updateSec lba edit) then pure failed else next) d = next d₁ := by
  obtain ⟨d₁, run, lasts₁⟩ := updateSec_lasts lasts has edit
  exact ⟨d₁, lasts₁, Prog.bind_eq_of_run run⟩

theorem loadWbuf_then_lasts (lasts : d.Lasts capacity) (has : d.blk.Has lba) (failed : α)
    (next : DriverM α) :
    ∃ d₁, d₁.Lasts capacity ∧
      (do if !(← loadWbuf lba) then pure failed else next) d = next d₁ :=
  ⟨{ d with fatWbuf := d.disk lba }, lasts, loadWbuf_then_run has failed next⟩

theorem writeEach_lasts {ι : Type} {items : List ι} {lba : ι → Nat} (lasts : d.Lasts capacity)
    (small : capacity < 2 ^ 32) (inside : ∀ i ∈ items, lba i < capacity) :
    ∃ d', Prog.firstOf (fun i => do pure (if ← writeWbuf (lba i) then none else some ())) items d =
      some (none, d') := by
  induction items generalizing d with
  | nil => exact ⟨d, rfl⟩
  | cons i rest ih =>
      obtain ⟨d₁, write, lasts₁⟩ :=
        writeWbuf_lasts lasts (lasts.has small (inside i List.mem_cons_self))
      obtain ⟨d', run⟩ := ih lasts₁ fun j mem => inside j (List.mem_cons_of_mem i mem)
      have step : (do pure (if ← writeWbuf (lba i) then none else some ()) :
          DriverM (Option Unit)) d = some (none, d₁) := Prog.bind_eq_of_run write
      exact ⟨d', Eq.trans (Prog.bind_eq_of_run step) run⟩

theorem fatSetStraddled_runs {m : Mount} (served : m.Served capacity c)
    (straddles : m.Straddles c) (lasts : d.Lasts capacity) (small : capacity < 2 ^ 32)
    (value : Nat) : ∃ d', fatSetStraddled m c value d = some (true, d') := by
  have spans := served.spans straddles
  have inTable := served.places.inTable
  have first {d : Driver} (lasts : d.Lasts capacity) :
      d.blk.Has (m.rsvdSec + m.rawOff c / 512) := lasts.has small (by omega)
  have second {d : Driver} (lasts : d.Lasts capacity) :
      d.blk.Has (m.rsvdSec + (m.rawOff c / 512 + 1)) :=
    lasts.has small (by have spill := served.places.spill straddles; omega)
  have third {d : Driver} (lasts : d.Lasts capacity) :
      d.blk.Has (m.rsvdSec + 1 * m.fatSec + m.rawOff c / 512) := lasts.has small (by omega)
  have fourth {d : Driver} (lasts : d.Lasts capacity) :
      d.blk.Has (m.rsvdSec + 1 * m.fatSec + (m.rawOff c / 512 + 1)) := lasts.has small spans
  rw [fatSetStraddled, Prog.bind_eq_of_run (wbuf_run d), served.places.succ_eq straddles,
    served.mirror_eq straddles, served.mirrorSucc_eq straddles, served.places.entryLba_eq]
  obtain ⟨d₁, lasts₁, run₁⟩ := updateSec_then_lasts lasts (first lasts)
    (·.blit (m.entryIdx c) [low12 c value (d.fatWbuf.get (m.entryIdx c))]) false _
  obtain ⟨d₂, lasts₂, run₂⟩ := loadWbuf_then_lasts lasts₁ (second lasts₁) false _
  obtain ⟨d₃, lasts₃, run₃⟩ := updateSec_then_lasts lasts₂ (second lasts₂)
    (editSpill c value) false _
  obtain ⟨d₄, lasts₄, run₄⟩ := loadWbuf_then_lasts lasts₃ (third lasts₃) false _
  obtain ⟨d₅, lasts₅, run₅⟩ := updateSec_then_lasts lasts₄ (third lasts₄)
    (·.blit (m.entryIdx c) [low12 c value (d.fatWbuf.get (m.entryIdx c))]) false _
  obtain ⟨d₆, lasts₆, run₆⟩ := loadWbuf_then_lasts lasts₅ (fourth lasts₅) false _
  obtain ⟨d', run, -⟩ := updateSec_lasts lasts₆ (fourth lasts₆) (editSpill c value)
  exact ⟨d', run₁.trans (run₂.trans (run₃.trans (run₄.trans (run₅.trans (run₆.trans run)))))⟩

theorem fatSetEntry_runs (served : d.m.Served capacity c) (size : d.blk.capacity = capacity)
    (healthy : d.blk.faults = []) (small : capacity < 2 ^ 32) (value : Nat) :
    ∃ d', fatSetEntry c value d = some (true, d') := by
  have lba := served.places.entryLba_eq
  have first := served.copies 0 served.fats
  rw [Nat.zero_mul, Nat.add_zero] at first
  have lasts : d.invalidated.Lasts capacity := ⟨size, healthy⟩
  have has : d.invalidated.blk.Has (d.m.entryLba c) := lasts.has small (by omega)
  rw [fatSetEntry, Prog.bind_eq_of_run (mount_run d), Prog.bind_eq_of_run (invalidate_run d)]
  obtain ⟨d₁, lasts₁, run₁⟩ := loadWbuf_then_lasts lasts has false _
  by_cases straddles : d.m.Straddles c
  · obtain ⟨d', run⟩ := fatSetStraddled_runs served straddles lasts₁ small value
    exact ⟨d', run₁.trans ((congrFun (if_pos straddles) d₁).trans run)⟩
  · have here : d₁.blk.Has (d.m.entryLba c) := lasts₁.has small (by omega)
    obtain ⟨d₂, lasts₂, run₂⟩ := updateSec_then_lasts lasts₁ here
      (d.m.editEntry c value) false (mirrorFat d.m (d.m.entryLba c))
    have inside (i : Nat) (mem : i ∈ List.range' 1 (d.m.numFats - 1)) :
        u32 (d.m.entryLba c + i * d.m.fatSec) < capacity := by
      have range := List.mem_range'_1.mp mem
      have isCopy : i < d.m.numFats := by omega
      rw [lba, served.copy_eq isCopy]
      exact served.copies i isCopy
    obtain ⟨d', each⟩ := writeEach_lasts lasts₂ small inside
    have mirrored : mirrorFat d.m (d.m.entryLba c) d₂ = some (true, d') :=
      Prog.bind_eq_of_run each
    exact ⟨d', run₁.trans ((congrFun (if_neg straddles) d₁).trans (run₂.trans mirrored))⟩

end Runs

section Law

/-- The result of `fat_next_clus`. -/
def Driver.nextClus (d : Driver) (clus : Nat) : Option Nat := (fatNextClus clus d).map Prod.fst

/-- One entry was set, and nothing else. -/
structure EntrySet (clus value : Nat) (d d' : Driver) : Prop where
  value : d'.nextClus clus = some (chainEnd d.m.mark value)
  others : d.Cached → ∀ c, d.m.Numbered c → c ≠ clus → d'.nextClus c = d.nextClus c
  reserved : d.m.type = .fat32 →
    (d.m.table d'.disk).loadLe (clus * 4) 4 / 2 ^ 28 =
      (d.m.table d.disk).loadLe (clus * 4) 4 / 2 ^ 28
  copies : d.m.Mirrored d.disk → d.m.Mirrored d'.disk
  outside : ∀ lba, d.m.Outside lba → d'.disk lba = d.disk lba

/-- Every successful `fat_set_entry` of a cluster sets its entry. -/
def Mount.EntryLaw (m : Mount) (clus : Nat) : Prop :=
  ∀ (d : Driver) (value : Nat) (d' : Driver), d.m = m → value < m.entryBound →
    fatSetEntry clus value d = some (true, d') → EntrySet clus value d d'

variable {d d' : Driver} {m : Mount} {c e value : Nat}

theorem nextClus_of_has (coherent : d.Coherent) (places : d.m.Places e)
    (hasEntry : d.HasEntry e) : d.nextClus e = some (d.m.next d.disk e) := by
  obtain ⟨d', run, -⟩ := fatNextClus_value coherent places hasEntry
  rw [Driver.nextClus, run]
  rfl

theorem nextClus_of_missing (cached : d.Cached) (missing : ¬ d.HasEntry e) :
    d.nextClus e = some noClus := by
  obtain ⟨d', run⟩ := fatNextClus_missing cached missing
  rw [Driver.nextClus, run]
  rfl

namespace EntryWritten

theorem cached (written : EntryWritten c value d d') : d'.Cached := fun valid => by
  rw [written.free] at valid
  exact absurd valid Bool.false_ne_true

theorem hasEntry_iff (written : EntryWritten c value d d') :
    d'.HasEntry e ↔ d.HasEntry e := by
  simp only [Driver.HasEntry, BlkDev.Has, written.m, written.capacity]

theorem reserved (written : EntryWritten c value d d') (places : d.m.Places c)
    (type : d.m.type = .fat32) :
    (d.m.table d'.disk).loadLe (c * 4) 4 / 2 ^ 28 =
      (d.m.table d.disk).loadLe (c * 4) 4 / 2 ^ 28 := by
  have covered := places.covered
  simp only [Mount.rawOff, Mount.entryWidth, type] at covered
  have old := (d.m.table d.disk).loadLe_lt (c * 4) 4
  rw [written.write.table, Mount.putEntry, entryBytes_fat32 type]
  simp only [Mount.rawOff, type]
  rw [Buffer.loadLe_blit_self _ _ _ _ covered]
  omega

theorem entrySet (written : EntryWritten c value d d') (volume : d.m.Volume)
    (numbered : d.m.Numbered c) (small : value < d.m.entryBound) : EntrySet c value d d' := by
  have places := volume.places numbered
  have table := written.write.table
  refine ⟨?_, ?_, written.reserved places, written.write.mirrored, written.write.outside⟩
  · rw [nextClus_of_has written.cached.coherent (by rwa [written.m])
      (written.hasEntry_iff.mpr written.hasEntry), written.m, Mount.next, table,
      entryOf_putEntry_self places.covered small]
  · intro cached e other ne
    by_cases hasEntry : d.HasEntry e
    · rw [nextClus_of_has written.cached.coherent (by rw [written.m]; exact volume.places other)
        (written.hasEntry_iff.mpr hasEntry),
        nextClus_of_has cached.coherent (volume.places other) hasEntry, written.m, Mount.next,
        table, entryOf_putEntry_ne places.covered ne, Mount.next]
    · have missing : ¬ d'.HasEntry e := fun has => hasEntry (written.hasEntry_iff.mp has)
      rw [nextClus_of_missing written.cached missing, nextClus_of_missing cached hasEntry]

end EntryWritten

/-- A driver with an empty device of the largest size. -/
def Mount.blank (m : Mount) : Driver :=
  { Driver.initial (fun _ => Buffer.zero) (2 ^ 32 - 1) with m := m }

/-- The first byte of a 12-bit entry changes when `0xFFF` is written over zeros. -/
theorem low12_full (clus : Nat) : low12 clus 0xFFF 0 ≠ 0 := by
  unfold low12
  split <;> decide

/-- On zeros the sector of the second copy changes, also when there is none, and that
of a third copy does not. -/
theorem two_copies_of_law (volume : m.Volume) (numbered : m.Numbered c)
    (straddles : m.Straddles c) (law : m.EntryLaw c) : m.numFats = 2 := by
  have places := volume.places numbered
  have spill := places.spill straddles
  have inTable := places.inTable
  have bound : 0xFFF < m.entryBound := by
    rw [entryBound_narrow ⟨straddles.1, straddles.2.1⟩]
    decide
  obtain ⟨d', run⟩ := fatSetEntry_runs (d := m.blank) (volume.served numbered) rfl rfl
    (by decide) 0xFFF
  obtain ⟨-, -, disk⟩ := fatSetEntry_straddled (d := m.blank)
    (volume.served numbered) straddles run
  have set := law m.blank 0xFFF d' rfl bound run
  have written (x : Nat) : d'.disk x = _ :=
    (congrFun disk x).trans (straddledDisk_apply (m := m) spill x)
  have changed {x : Nat} (first : x = m.rsvdSec + m.rawOff c / 512 ∨
      x = m.rsvdSec + 1 * m.fatSec + m.rawOff c / 512) : d'.disk x ≠ Buffer.zero := by
    have ne : ¬ (x = m.rsvdSec + (m.rawOff c / 512 + 1) ∨
        x = m.rsvdSec + 1 * m.fatSec + (m.rawOff c / 512 + 1)) := by omega
    rw [written, if_neg ne, if_pos first]
    intro same
    have byte := congrArg (fun s : Sector => s.get 511) same
    simp only [Buffer.get_blit_singleton _ (show 511 < 512 by decide), if_true,
      Buffer.get_zero] at byte
    exact low12_full c byte
  have fats := volume.fats
  by_contra two
  rcases Nat.lt_or_gt_of_ne two with one | many
  · have outside : m.Outside (m.rsvdSec + 1 * m.fatSec + m.rawOff c / 512) := by
      obtain lone : m.numFats = 1 := by omega
      right
      rw [lone]
      omega
    exact changed (Or.inr rfl) (set.outside _ outside)
  · have blank : m.Mirrored m.blank.disk := fun k _ s _ => rfl
    have same := set.copies blank 2 many _ inTable
    refine changed (Or.inl rfl) (same.symm.trans ?_)
    have third {k s : Nat} (other : k ≠ 2) (within : s < m.fatSec) :
        m.rsvdSec + 2 * m.fatSec + m.rawOff c / 512 ≠ m.rsvdSec + k * m.fatSec + s :=
      fun same => other (copy_inj inTable within same).1.symm
    have zeroth {s : Nat} (within : s < m.fatSec) :
        m.rsvdSec + 2 * m.fatSec + m.rawOff c / 512 ≠ m.rsvdSec + s :=
      (first_copy_ne inTable within (by decide)).symm
    rw [written, if_neg, if_neg]
    · rfl
    · exact not_or.mpr ⟨zeroth inTable, third (by decide) inTable⟩
    · exact not_or.mpr ⟨zeroth spill, third (by decide) spill⟩

/-- `fat_set_entry` sets one entry in all copies and writes nothing else, exactly when
the entry lies in one sector or the volume has two copies. -/
theorem entryLaw_iff (volume : m.Volume) (numbered : m.Numbered c) :
    m.EntryLaw c ↔ (m.Straddles c → m.numFats = 2) := by
  constructor
  · exact fun law straddles => two_copies_of_law volume numbered straddles law
  · rintro copies d value d' rfl small run
    exact (fatSetEntry_success (volume.served numbered) copies run).entrySet volume numbered small

/-- A FAT12 volume of 400 sectors whose table takes two, with cluster 341 in both. -/
def floppy (copies : UInt8) : Nat → Sector
  | 0 => ((((((((Buffer.zero.blit 11 [0x00, 0x02]).blit 13 [1]).blit 14 [1, 0]).blit 16
      [copies]).blit 17 [16, 0]).blit 19 [0x90, 0x01]).blit 22 [2, 0]).blit 510 [0x55, 0xAA])
  | _ => Buffer.zero

/-- What `fat_mount` finds on it. -/
def floppyMount (copies : Nat) : Mount :=
  { valid := true, type := .fat12, bytesPerSec := 512, secPerClus := 1, rsvdSec := 1
    numFats := copies, rootEntCount := 16, totalSec := 400, fatSec := 2, rootClus := 0
    firstDataSec := 2 * copies + 2, firstRootSec := 2 * copies + 1
    clusterCount := 398 - 2 * copies }

deriving instance DecidableEq for Mount

theorem floppyMount_volume (copies : UInt8)
    (mounts : (fatMount (Driver.initial (floppy copies) 400)).map (fun result => (result.1, result.2.m)) =
      some (0, floppyMount copies.toNat)) : (floppyMount copies.toNat).Volume where
  accepted := by
    obtain ⟨⟨code, d⟩, run, ends⟩ := Option.map_eq_some_iff.mp mounts
    obtain ⟨rfl, mount⟩ := Prod.mk.inj ends
    exact ⟨_, d, run, mount.symm⟩
  covers := by
    intro c inRange
    simp only [floppyMount, Mount.rawOff, Mount.entryWidth] at inRange ⊢
    omega
  addressed := by
    have bound := copies.toNat_lt
    simp only [floppyMount]
    omega

theorem floppyMount_numbered {copies : Nat} (few : copies ≤ 2) :
    (floppyMount copies).Numbered 341 := by
  simp only [Mount.Numbered, Mount.IsCluster, floppyMount, Mount.entryBound]
  omega

theorem entryLaw_iff_twoCopies :
    (floppyMount 2).Straddles 341 ∧ (floppyMount 2).EntryLaw 341 :=
  ⟨by decide, (entryLaw_iff (floppyMount_volume 2 (by decide +kernel))
    (floppyMount_numbered le_rfl)).mpr fun _ => rfl⟩

/-- With one copy, the mirror step for cluster 341 writes the root directory, which is
in sector 3. -/
theorem one_copy_writes_root :
    (floppyMount 1).Volume ∧ (floppyMount 1).Numbered 341 ∧ (floppyMount 1).Outside 3 ∧
      ((fatSetEntry 341 0xFFF (floppyMount 1).blank).map fun result =>
        (result.1, (result.2.disk 3).get 511)) = some (true, 0xF0) ∧
      ¬ (floppyMount 1).EntryLaw 341 := by
  have volume : (floppyMount 1).Volume :=
    floppyMount_volume 1 (by decide +kernel)
  have numbered : (floppyMount 1).Numbered 341 := floppyMount_numbered (by decide)
  refine ⟨volume, numbered, Or.inr (by decide), by decide +kernel, fun law => ?_⟩
  have two := two_copies_of_law volume numbered (by decide) law
  exact absurd two (by decide)

end Law

end Ncd15.Fat
