import Ncd15.Fat.Contents
import Ncd15.Fat.RootDirectory

/-!
# Appending to a file in its first cluster

A write behind the end of a file stays in the first cluster as long as there is room,
and the cluster is allocated with the first byte.  The seek to the end of a file that
fills its cluster follows the link of the last cluster and fails.
-/

namespace Ncd15.Fat

open Ncd15.Library

section Bytes

variable {m : Mount} {disk : Nat → Sector} {c : Nat} {contents bytes : List UInt8}

theorem byteAt_single {pos : Nat} (inside : pos < m.secPerClus * 512) :
    m.byteAt disk [c] pos = (disk (m.dataLba c (pos / 512))).get (pos % 512) := by
  have sector : pos / 512 < m.secPerClus := by omega
  rw [Mount.byteAt, Nat.div_eq_of_lt sector, Nat.mod_eq_of_lt sector]
  rfl

theorem bytesAt_congr {disk' : Nat → Sector} {length : Nat} (fits : length ≤ m.secPerClus * 512)
    (same : ∀ pos, pos < length → (disk' (m.dataLba c (pos / 512))).get (pos % 512) =
      (disk (m.dataLba c (pos / 512))).get (pos % 512)) :
    m.bytesAt disk' [c] 0 length = m.bytesAt disk [c] 0 length := by
  refine List.map_congr_left fun pos mem => ?_
  have small := List.mem_range.mp mem
  rw [Nat.zero_add, byteAt_single (by omega), byteAt_single (by omega), same pos small]

/-- Bytes written behind the end of the contents, in one sector of the cluster. -/
theorem bytesAt_appended (stored : m.bytesAt disk [c] 0 contents.length = contents)
    (inSector : contents.length % 512 + bytes.length ≤ 512) (some : bytes ≠ [])
    (fits : contents.length + bytes.length ≤ m.secPerClus * 512) :
    m.bytesAt (Function.update disk (m.dataLba c (contents.length / 512))
        ((disk (m.dataLba c (contents.length / 512))).blit (contents.length % 512) bytes))
      [c] 0 (contents.length + bytes.length) = contents ++ bytes := by
  have positive := List.length_pos_iff.mpr some
  rw [Mount.bytesAt_add, Nat.zero_add]
  congr 1
  · refine (bytesAt_congr (by omega) fun pos small => ?_).trans stored
    by_cases shared : pos / 512 = contents.length / 512
    · rw [shared, Function.update_self, Buffer.get_blit_of_lt _ (by omega)]
    · rw [Function.update_of_ne]
      simp only [Mount.dataLba]
      omega
  · have sector : contents.length / 512 < m.secPerClus := by omega
    rw [Mount.bytesAt_sector inSector, Nat.div_eq_of_lt sector, Nat.mod_eq_of_lt sector]
    change (Function.update disk (m.dataLba c _) _ (m.dataLba c _)).slice _ _ = bytes
    rw [Function.update_self]
    exact Buffer.slice_blit_self _ _ _ (by omega)

end Bytes

section Sector

variable {d d₁ : Driver} {fp fp₁ : FatFile} {bytes : List UInt8} {rounds : Nat}

/-- `fat_fwrite` of bytes that fit in the sector at the position of the handle. -/
theorem fatFwrite_sector (valid : d.m.valid = true) (inUse : fp.inUse = true)
    (attached : attachFirst fp ((bytes.length - bytes.length : Nat) : Int) d.invalidated =
      some (.ok fp₁, d₁))
    (free : Free d₁) (same : d₁.m = d.m) (isCluster : d.m.IsCluster fp₁.curClus)
    (some : bytes ≠ []) (inSector : fp₁.curPos % 512 + bytes.length ≤ 512)
    (fits : fp₁.curPos + bytes.length ≤ d.m.secPerClus * 512) (enough : 1 < rounds) :
    ∃ d₂, fatFwrite rounds fp bytes d = Option.some (((bytes.length : Int), { fp₁ with
        curPos := fp₁.curPos + bytes.length
        fileSize := max fp₁.fileSize (fp₁.curPos + bytes.length) }), d₂) ∧ DiskStep d₁ d₂ ∧
      d₂.disk = Function.update d₁.disk (d.m.dataLba fp₁.curClus (fp₁.curPos / 512))
        ((d₁.disk (d.m.dataLba fp₁.curClus (fp₁.curPos / 512))).blit (fp₁.curPos % 512) bytes) := by
  have sane := free.1.sane
  rw [same] at sane
  have positive := List.length_pos_iff.mpr some
  obtain ⟨k, small, power⟩ := sane.sectors_pow
  have bound : d.m.secPerClus ≤ 2 ^ 7 := power ▸ Nat.pow_le_pow_right (by decide) small
  have sector : fp₁.curPos / 512 < d.m.secPerClus := by omega
  have off : inCluster d.m.clusSize fp₁.curPos % 512 = fp₁.curPos % 512 := inCluster_mod sane _
  have lba : u32 (d.m.clusToLba fp₁.curClus + inCluster d.m.clusSize fp₁.curPos / 512) =
      d.m.dataLba fp₁.curClus (fp₁.curPos / 512) := by
    rw [inCluster_div sane, Nat.mod_eq_of_lt sector, clusToLba_add sane isCluster sector]
  have has : d₁.blk.Has (d.m.dataLba fp₁.curClus (fp₁.curPos / 512)) :=
    has_of_lt free.1.sane (dataLba_lt sane isCluster sector)
  obtain ⟨d₂, step, disk, run⟩ := loadUpdate_then_run free has (·.blit (fp₁.curPos % 512) bytes)
    (Sum.inr (-1, fp₁)) (pure (Sum.inl { fp := { fp₁ with
      curPos := fp₁.curPos + bytes.length
      fileSize := max fp₁.fileSize (fp₁.curPos + bytes.length) }, rest := [] }) :
        DriverM (WriteLoop ⊕ (Int × FatFile)))
  refine ⟨d₂, ?_, step, disk⟩
  have chunk : bytes.take (512 - fp₁.curPos % 512) = bytes := List.take_of_length_le (by omega)
  have pos : u32 (fp₁.curPos + bytes.length) = fp₁.curPos + bytes.length := u32_of_lt (by omega)
  have first : fwriteRound d.m bytes.length { fp, rest := bytes } d.invalidated =
      Option.some (Sum.inl { fp := { fp₁ with
        curPos := fp₁.curPos + bytes.length
        fileSize := max fp₁.fileSize (fp₁.curPos + bytes.length) }, rest := [] }, d₂) := by
    rw [fwriteRound, if_neg some, Prog.bind_eq_of_run attached]
    simp only [off, lba, chunk, pos, List.drop_length, ne_eq, not_true_eq_false, and_false,
      if_false]
    exact run
  obtain ⟨rounds, rfl⟩ : ∃ more, rounds = more + 2 := ⟨rounds - 2, by omega⟩
  have opened : ¬ ((!fp.inUse) = true ∨ (!d.m.valid) = true) := by simp [inUse, valid]
  rw [fatFwrite, Prog.bind_eq_of_run (mount_run d), if_neg opened,
    Prog.bind_eq_of_run (invalidate_run d)]
  refine (Prog.loop_inl first).trans (Prog.loop_inr ?_)
  rw [fwriteRound, if_pos rfl]
  rfl

end Sector

section Files

/-- The only cluster of a file holds its contents. -/
structure InCluster (m : Mount) (disk : Nat → Sector) (slot : Slot) (c : Nat)
    (contents : List UInt8) : Prop where
  isCluster : m.IsCluster c
  last : m.mark ≤ m.link disk c
  apart : slot.lba ∉ m.clusterLbas c
  fits : contents.length ≤ m.secPerClus * 512
  stored : m.bytesAt disk [c] 0 contents.length = contents

/-- A file with these contents, open for appending: it has no cluster yet, or one. -/
structure Appending (m : Mount) (capacity : Nat) (raw : List UInt8) (contents : List UInt8)
    (fp : FatFile) (d : Driver) : Prop where
  here : d.m = m
  size : d.blk.capacity = capacity
  free : Free d
  kept : SlotKept m d.disk capacity fp.slot
  entry : EntryIs (d.disk fp.slot.lba) fp.slot.off raw fp.firstClus contents.length
  inUse : fp.inUse = true
  fileSize : fp.fileSize = contents.length
  data : if contents = [] then fp.firstClus = 0
    else InCluster m d.disk fp.slot fp.firstClus contents

variable {m : Mount} {capacity : Nat} {raw contents bytes : List UInt8} {fp : FatFile} {d : Driver}

theorem Created.appending (created : Created m capacity raw fp d) :
    Appending m capacity raw [] fp d where
  here := created.here
  size := created.size
  free := created.free
  kept := created.kept
  entry := by
    rw [created.handle]
    exact created.entry
  inUse := by rw [created.handle]; rfl
  fileSize := by rw [created.handle]; rfl
  data := by rw [created.handle]; rfl

/-- The state in which the bytes are stored: the handle has its cluster. -/
structure Placed (m : Mount) (capacity : Nat) (raw : List UInt8) (contents : List UInt8)
    (fp : FatFile) (d : Driver) : Prop where
  here : d.m = m
  size : d.blk.capacity = capacity
  free : Free d
  kept : SlotKept m d.disk capacity fp.slot
  name : ∃ first size, EntryIs (d.disk fp.slot.lba) fp.slot.off raw first size
  data : InCluster m d.disk fp.slot fp.firstClus contents
  inUse : fp.inUse = true
  curClus : fp.curClus = fp.firstClus
  curPos : fp.curPos = contents.length
  fileSize : fp.fileSize = contents.length

theorem InCluster.of_edit {disk : Nat → Sector} {slot : Slot} {c : Nat} (sane : m.Sane capacity)
    (kept : SlotKept m disk capacity slot) (data : InCluster m disk slot c contents) (s : Sector) :
    InCluster m (Function.update disk slot.lba s) slot c contents where
  isCluster := data.isCluster
  last := by
    rw [link_of_outside sane kept]
    exact data.last
  apart := data.apart
  fits := data.fits
  stored := by
    refine (bytesAt_congr data.fits fun pos small => ?_).trans data.stored
    have fits := data.fits
    rw [Function.update_of_ne]
    rintro same
    exact data.apart ((mem_clusterLbas sane data.isCluster).mpr ⟨pos / 512, by omega, same⟩)

theorem SlotKept.of_allocated {d' : Driver} {slot : Slot} {nc : Nat}
    (kept : SlotKept d.m d.disk capacity slot) (sane : d.m.Sane d.blk.capacity)
    (alloc : Allocated d d' nc) : SlotKept d.m d'.disk capacity slot where
  off_le := kept.off_le
  outside := kept.outside
  inside := kept.inside
  used := by
    intro c isCluster isFree
    by_cases self : c = nc
    · exact kept.used c isCluster (self ▸ alloc.isFree)
    · rw [alloc.link_of_ne sane self] at isFree
      exact kept.used c isCluster isFree

/-- The first cluster of a file: allocated, and entered into the directory. -/
theorem attachFirst_run (appending : Appending m capacity raw [] fp d) (start : fp.curPos = 0)
    (space : ∃ c, m.IsCluster c ∧ m.link d.disk c = 0) (written : Int) :
    ∃ nc d', attachFirst fp written d = some (.ok { fp with firstClus := nc, curClus := nc }, d') ∧
      Placed m capacity raw [] { fp with firstClus := nc, curClus := nc } d' := by
  obtain ⟨rfl, rfl, free, kept, entry, inUse, fileSize, data⟩ := appending
  have sane := free.1.sane
  obtain ⟨c, isCluster, isFree⟩ := space
  rcases fatAllocCluster_run free.1 with ⟨nc, d₁, run₁, alloc⟩ | ⟨full, -⟩
  swap
  · exact absurd isFree (full c isCluster)
  have m₁ : d₁.m = d.m := alloc.step.m
  have size₁ : d₁.blk.capacity = d.blk.capacity := alloc.step.capacity
  have kept₁ := kept.of_allocated sane alloc
  have inside₁ : fp.slot.lba < d₁.blk.capacity := by
    rw [size₁]
    exact kept.inside
  obtain ⟨d₂, run₂, step₂, disk₂⟩ :=
    modifyEntry_run alloc.step.free inside₁ fun off => editFirstClus off nc
  rw [alloc.write.outside _ kept.outside] at disk₂
  refine ⟨nc, d₂, ?_, step₂.m.trans m₁, step₂.capacity.trans size₁, step₂.free, ?_, ?_, ?_,
    inUse, rfl, start, fileSize⟩
  · rw [if_pos rfl] at data
    rw [attachFirst, if_pos data, Prog.bind_eq_of_run run₁, if_neg alloc.ne_zero]
    exact Prog.bind_eq_of_run run₂
  · rw [disk₂]
    exact kept₁.edited sane _
  · refine ⟨nc, 0, ?_⟩
    rw [disk₂]
    change EntryIs (Function.update d₁.disk fp.slot.lba _ fp.slot.lba) fp.slot.off raw nc 0
    rw [Function.update_self]
    have small := sane.count_le
    have range := alloc.isCluster.2
    exact entry.withFirst kept.off_le (by omega)
  · rw [disk₂]
    refine InCluster.of_edit sane kept₁ ⟨alloc.isCluster, ?_, ?_, Nat.zero_le _, rfl⟩ _
    · rw [alloc.link_self sane]
      exact mark_le_eoc sane
    · exact kept.used nc alloc.isCluster alloc.isFree

theorem Free.invalidated_eq (free : Free d) : d.invalidated = d := by
  have idle := free.2
  cases d
  simp only [Driver.invalidated] at idle ⊢
  rw [idle]

/-- A seek to the end of a file that ends within its cluster. -/
theorem fatFseek_end (appending : Appending m capacity raw contents fp d)
    (room : contents.length < m.secPerClus * 512) :
    fatFseek fp contents.length d =
      some ((0, { fp with curPos := contents.length, curClus := fp.firstClus }), d) := by
  obtain ⟨rfl, rfl, free, -, -, inUse, fileSize, -⟩ := appending
  have opened : ¬ (!fp.inUse) = true := by simp [inUse]
  rw [fatFseek, Prog.bind_eq_of_run (mount_run d), if_neg opened, fileSize, Nat.min_self,
    clusSize_eq free.1.sane, Nat.div_eq_of_lt room]
  rfl

/-- A seek to the end of a file that fills its cluster finds no next cluster. -/
theorem fatFseek_full (appending : Appending m capacity raw contents fp d)
    (full : contents.length = m.secPerClus * 512) :
    ∃ fp' d', fatFseek fp contents.length d = some ((-1, fp'), d') := by
  obtain ⟨rfl, rfl, free, -, -, inUse, fileSize, data⟩ := appending
  have sane := free.1.sane
  have positive := sane.sectors
  have some : contents ≠ [] := by
    rintro rfl
    simp only [List.length_nil] at full
    omega
  rw [if_neg some] at data
  obtain ⟨d₁, run₁, -⟩ := fatNextClus_run free.1.good sane data.isCluster.2
  rw [next_of_mark data.last] at run₁
  have opened : ¬ (!fp.inUse) = true := by simp [inUse]
  have skip : contents.length / d.m.clusSize = 1 := by
    rw [clusSize_eq sane, full]
    exact Nat.div_self (by omega)
  refine ⟨{ fp with curPos := contents.length, curClus := fp.firstClus }, d₁, ?_⟩
  rw [fatFseek, Prog.bind_eq_of_run (mount_run d), if_neg opened, fileSize, Nat.min_self, skip]
  exact Prog.bind_eq_of_run run₁

/-- The cluster of the handle, before the bytes are stored. -/
theorem attachFirst_placed (appending : Appending m capacity raw contents fp d)
    (space : contents = [] → ∃ c, m.IsCluster c ∧ m.link d.disk c = 0)
    (place : fp.curClus = fp.firstClus) (pos : fp.curPos = contents.length) (written : Int) :
    ∃ fp' d', attachFirst fp written d = some (.ok fp', d') ∧
      Placed m capacity raw contents fp' d' := by
  by_cases empty : contents = []
  · subst empty
    obtain ⟨nc, d', run, placed⟩ := attachFirst_run appending pos (space rfl) written
    exact ⟨_, d', run, placed⟩
  · have data := appending.data
    rw [if_neg empty] at data
    have started : fp.firstClus ≠ 0 := by
      have atLeast := data.isCluster.1
      omega
    refine ⟨fp, d, ?_, appending.here, appending.size, appending.free, appending.kept,
      ⟨_, _, appending.entry⟩, data, appending.inUse, place, pos, appending.fileSize⟩
    rw [attachFirst, if_neg started]
    rfl

/-- The bytes behind the contents. -/
theorem Placed.written {d' : Driver} (placed : Placed m capacity raw contents fp d)
    (some : bytes ≠ []) (inSector : contents.length % 512 + bytes.length ≤ 512)
    (fits : contents.length + bytes.length ≤ m.secPerClus * 512) (step : DiskStep d d')
    (disk : d'.disk = Function.update d.disk (m.dataLba fp.firstClus (contents.length / 512))
      ((d.disk (m.dataLba fp.firstClus (contents.length / 512))).blit (contents.length % 512)
        bytes)) :
    Placed m capacity raw (contents ++ bytes) { fp with
      curPos := contents.length + bytes.length
      fileSize := max fp.fileSize (contents.length + bytes.length) } d' := by
  obtain ⟨rfl, rfl, free, kept, ⟨first, size, entry⟩, data, inUse, curClus, -, fileSize⟩ := placed
  have sane := free.1.sane
  have positive := List.length_pos_iff.mpr some
  have sector : contents.length / 512 < d.m.secPerClus := by omega
  have links (c : Nat) : d.m.link d'.disk c = d.m.link d.disk c := by
    refine link_congr (fun lba inTable => ?_) sane.fats
    rw [disk, Function.update_of_ne]
    rintro rfl
    exact inTable (dataLba_outside sane)
  have other : fp.slot.lba ≠ d.m.dataLba fp.firstClus (contents.length / 512) := by
    intro same
    exact data.apart ((mem_clusterLbas sane data.isCluster).mpr ⟨_, sector, same.symm⟩)
  refine ⟨step.m, step.capacity, step.free, ?_, ⟨first, size, ?_⟩, ?_, inUse, curClus, ?_, ?_⟩
  · refine ⟨kept.off_le, kept.outside, kept.inside, fun c isCluster isFree => ?_⟩
    rw [links] at isFree
    exact kept.used c isCluster isFree
  · rw [disk]
    change EntryIs (Function.update d.disk _ _ fp.slot.lba) fp.slot.off raw first size
    rwa [Function.update_of_ne other]
  · refine ⟨data.isCluster, ?_, data.apart, ?_, ?_⟩
    · rw [links]
      exact data.last
    · rwa [List.length_append]
    · rw [List.length_append, disk]
      exact bytesAt_appended data.stored inSector some fits
  · exact (List.length_append).symm
  · rw [fileSize, List.length_append]
    exact Nat.max_eq_right (Nat.le_add_right _ _)

/-- `fat_fflush` of a file with a cluster. -/
theorem Placed.flushed (placed : Placed m capacity raw contents fp d) (some : contents ≠ []) :
    ∃ d', fatFflush fp d = Option.some (0, d') ∧ Appending m capacity raw contents fp d' := by
  obtain ⟨rfl, rfl, free, kept, ⟨first, size, entry⟩, data, inUse, -, -, fileSize⟩ := placed
  have sane := free.1.sane
  obtain ⟨d', run, step, disk⟩ := modifyEntry_run free kept.inside fp.editFlush
  have started : fp.firstClus ≠ 0 := by
    have atLeast := data.isCluster.1
    omega
  have opened : ¬ ((!fp.inUse) = true ∨ (!d.m.valid) = true) := by simp [inUse, sane.valid]
  refine ⟨d', ?_, step.m, step.capacity, step.free, ?_, ?_, inUse, fileSize, ?_⟩
  · have cleared := invalidate_run d
    rw [show ({ d with fatBufValid := false } : Driver) = d from free.invalidated_eq] at cleared
    rw [fatFflush, Prog.bind_eq_of_run (mount_run d), if_neg opened, Prog.bind_eq_of_run cleared,
      Prog.bind_eq_of_run run]
    rfl
  · rw [disk]
    exact kept.edited sane _
  · rw [disk, Function.update_self, FatFile.editFlush, if_pos started, fileSize]
    obtain ⟨k, small, power⟩ := sane.sectors_pow
    have bound : d.m.secPerClus ≤ 2 ^ 7 := power ▸ Nat.pow_le_pow_right (by decide) small
    have fits := data.fits
    have range := data.isCluster.2
    have count := sane.count_le
    exact (entry.withSize kept.off_le (by omega)).withFirst kept.off_le (by omega)
  · rw [if_neg some, disk]
    exact data.of_edit sane kept _

/-- `fat_fwrite` behind the end of the file, and `fat_fflush`. -/
theorem append_run {rounds : Nat} (appending : Appending m capacity raw contents fp d)
    (space : contents = [] → ∃ c, m.IsCluster c ∧ m.link d.disk c = 0) (some : bytes ≠ [])
    (inSector : contents.length % 512 + bytes.length ≤ 512)
    (fits : contents.length + bytes.length ≤ m.secPerClus * 512) (enough : 1 < rounds) :
    ∃ fp' d₁ d₂, fatFwrite rounds { fp with curPos := contents.length, curClus := fp.firstClus }
        bytes d = Option.some (((bytes.length : Int), fp'), d₁) ∧
      fatFflush fp' d₁ = Option.some (0, d₂) ∧
      Appending m capacity raw (contents ++ bytes) fp' d₂ := by
  have moved : Appending m capacity raw contents
      { fp with curPos := contents.length, curClus := fp.firstClus } d :=
    ⟨appending.here, appending.size, appending.free, appending.kept, appending.entry,
      appending.inUse, appending.fileSize, appending.data⟩
  obtain ⟨fp₁, d₁, attached, placed⟩ := attachFirst_placed moved space rfl rfl
    ((bytes.length - bytes.length : Nat) : Int)
  rw [← appending.free.invalidated_eq] at attached
  have here := appending.here
  subst here
  obtain ⟨d₂, run, step, disk⟩ := fatFwrite_sector appending.free.1.sane.valid moved.inUse attached
    placed.free placed.here (placed.curClus ▸ placed.data.isCluster) some
    (by rw [placed.curPos]; exact inSector) (by rw [placed.curPos]; exact fits) enough
  rw [placed.curClus, placed.curPos] at disk
  have written := placed.written some inSector fits step disk
  rw [← placed.curPos] at written
  obtain ⟨d₃, flushed, result⟩ := written.flushed (by simp [some])
  exact ⟨_, d₂, d₃, run, flushed, result⟩

end Files

end Ncd15.Fat
