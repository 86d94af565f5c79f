import Ncd15.Fat.EntryLaw
import Ncd15.Fat.Flush
import Mathlib.Data.Finset.Card
import Mathlib.Data.Finset.Range

/-!
# A file that grows by appending

The chain of a file that is created and written from its start on: a call links a
cluster each time it crosses a boundary with bytes left.  A call that ends on a
boundary leaves the handle in the cluster that is full.
-/

namespace Ncd15.Fat

open Ncd15.Library

section Positions

variable {size pos count : Nat}

/-- Bytes of one sector are bytes of one cluster. -/
theorem within_cluster {sectors : Nat} (positive : 0 < sectors)
    (inSector : pos % 512 + count ≤ 512) :
    pos % (sectors * 512) + count ≤ sectors * 512 := by
  have sector : pos / 512 % sectors < sectors := Nat.mod_lt _ positive
  rw [Nat.mul_comm sectors, Nat.mod_mul]
  omega

theorem div_last (some : 0 < count) (within : pos % size + count ≤ size) :
    (pos + count - 1) / size = pos / size := by
  have split := Nat.div_add_mod pos size
  rw [Nat.mul_comm] at split
  apply Nat.div_eq_of_lt_le
  · omega
  · rw [Nat.add_mul, Nat.one_mul]
    omega

theorem div_inside (within : pos % size + count < size) : (pos + count) / size = pos / size := by
  have split := Nat.div_add_mod pos size
  rw [Nat.mul_comm] at split
  apply Nat.div_eq_of_lt_le
  · omega
  · rw [Nat.add_mul, Nat.one_mul]
    omega

theorem div_boundary (positive : 0 < size) (full : pos % size + count = size) :
    (pos + count) / size = pos / size + 1 ∧ (pos + count) % size = 0 := by
  have split := Nat.div_add_mod pos size
  rw [Nat.mul_comm] at split
  have total : pos + count = (pos / size + 1) * size := by
    rw [Nat.add_mul, Nat.one_mul]
    omega
  rw [total]
  exact ⟨Nat.mul_div_cancel _ positive, Nat.mul_mod_left _ _⟩

theorem mod_inside (some : 0 < count) (within : pos % size + count < size) :
    (pos + count) % size ≠ 0 := by
  have split := Nat.div_add_mod pos size
  rw [Nat.add_mod, Nat.mod_eq_of_lt (show count < size by omega), Nat.mod_eq_of_lt within]
  omega

/-- Bytes that end at a boundary end with the piece they begin in. -/
theorem ends_piece (positive : 0 < size) (some : 0 < count) (within : pos % size + count ≤ size)
    (boundary : (pos + count) % size = 0) :
    (pos + count) / size = pos / size + 1 ∧ pos + count = (pos / size + 1) * size := by
  have full : pos % size + count = size := by
    by_contra inside
    exact mod_inside some (lt_of_le_of_ne within inside) boundary
  obtain ⟨next, -⟩ := div_boundary positive full
  refine ⟨next, ?_⟩
  rw [← next, Nat.div_mul_cancel (Nat.dvd_of_mod_eq_zero boundary)]

theorem stays_inside (positive : 0 < size) (within : pos % size + count ≤ size)
    (off : (pos + count) % size ≠ 0) : pos % size + count < size :=
  lt_of_le_of_ne within fun full => off (div_boundary positive full).2

end Positions

section Counting

variable {m : Mount} {disk disk' : Nat → Sector} {c : Nat}

/-- The free clusters of a volume. -/
def Mount.freeClusters (m : Mount) (disk : Nat → Sector) : Finset Nat :=
  (Finset.range (m.clusterCount + 2)).filter fun c => 2 ≤ c ∧ m.link disk c = 0

theorem mem_freeClusters : c ∈ m.freeClusters disk ↔ m.IsCluster c ∧ m.link disk c = 0 := by
  simp only [Mount.freeClusters, Finset.mem_filter, Finset.mem_range, Mount.IsCluster]
  tauto

theorem freeClusters_congr (same : ∀ c, m.link disk' c = m.link disk c) :
    m.freeClusters disk' = m.freeClusters disk := by
  ext c
  rw [mem_freeClusters, mem_freeClusters, same]

/-- One free cluster is taken, and no other becomes free. -/
theorem card_freeClusters (isCluster : m.IsCluster c) (isFree : m.link disk c = 0)
    (taken : m.link disk' c ≠ 0)
    (rest : ∀ x, x ≠ c → (m.link disk' x = 0 ↔ m.link disk x = 0)) :
    (m.freeClusters disk').card + 1 = (m.freeClusters disk).card := by
  have erased : m.freeClusters disk' = (m.freeClusters disk).erase c := by
    ext x
    rw [Finset.mem_erase, mem_freeClusters, mem_freeClusters]
    by_cases self : x = c
    · subst self
      simp [taken]
    · simp [self, rest x self]
  rw [erased]
  exact Finset.card_erase_add_one (mem_freeClusters.mpr ⟨isCluster, isFree⟩)

end Counting

section Chains

variable {m : Mount} {disk disk' : Nat → Sector} {clusters : List Nat} {capacity nc : Nat}

theorem Mount.Chain.used (chain : m.Chain disk clusters) {k : Nat} (inside : k < clusters.length) :
    m.link disk (clusters.getD k 0) ≠ 0 := by
  by_cases last : k + 1 = clusters.length
  · have mark := chain.last k last
    have positive : 0 < m.mark := mark_pos
    omega
  · have link := chain.linked k (by omega)
    have next := (chain.isCluster (k + 1) (by omega)).1
    omega

theorem Mount.Chain.congr (chain : m.Chain disk clusters)
    (same : ∀ c, m.link disk' c = m.link disk c) : m.Chain disk' clusters where
  isCluster := chain.isCluster
  linked := fun k inside => (same _).trans (chain.linked k inside)
  last := fun k last => (chain.last k last).trans (same _).ge

theorem getD_inj (nodup : clusters.Nodup) {k k' : Nat} (inside : k < clusters.length)
    (inside' : k' < clusters.length) (same : clusters.getD k 0 = clusters.getD k' 0) : k = k' := by
  rw [List.getD_eq_getElem _ _ inside, List.getD_eq_getElem _ _ inside'] at same
  exact (nodup.getElem_inj_iff).mp same

/-- A cluster linked behind the last one. -/
theorem Mount.Chain.snoc (chain : m.Chain disk clusters) (nodup : clusters.Nodup)
    (isCluster : m.IsCluster nc) (isFree : m.link disk nc = 0) (mark : m.mark ≤ m.link disk' nc)
    (last : ∀ k, k + 1 = clusters.length → m.link disk' (clusters.getD k 0) = nc)
    (rest : ∀ k, k + 1 < clusters.length →
      m.link disk' (clusters.getD k 0) = m.link disk (clusters.getD k 0)) :
    m.Chain disk' (clusters ++ [nc]) ∧ (clusters ++ [nc]).Nodup := by
  have old {k : Nat} (inside : k < clusters.length) :
      (clusters ++ [nc]).getD k 0 = clusters.getD k 0 := List.getD_append _ _ _ _ inside
  have new : (clusters ++ [nc]).getD clusters.length 0 = nc := by simp
  refine ⟨⟨fun k inside => ?_, fun k inside => ?_, fun k atEnd => ?_⟩, ?_⟩
  · rw [List.length_append, List.length_singleton] at inside
    by_cases before : k < clusters.length
    · rw [old before]
      exact chain.isCluster k before
    · obtain rfl : k = clusters.length := by omega
      rwa [new]
  · rw [List.length_append, List.length_singleton] at inside
    rw [old (by omega)]
    by_cases before : k + 1 < clusters.length
    · rw [old before, rest k before]
      exact chain.linked k before
    · have here : k + 1 = clusters.length := by omega
      rw [last k here, here, new]
  · rw [List.length_append, List.length_singleton] at atEnd
    obtain rfl : k = clusters.length := by omega
    rwa [new]
  · rw [List.nodup_append]
    refine ⟨nodup, List.nodup_singleton nc, ?_⟩
    intro a mem b isNew same
    obtain rfl := List.mem_singleton.mp isNew
    subst same
    obtain ⟨k, inside, rfl⟩ := List.getElem_of_mem mem
    have used := chain.used inside
    rw [List.getD_eq_getElem _ _ inside] at used
    exact used isFree

/-- The chain from a first cluster on is determined. -/
theorem Mount.Chain.length_le {clusters' : List Nat} (sane : m.Sane capacity)
    (chain : m.Chain disk clusters) (chain' : m.Chain disk clusters')
    (some : clusters' ≠ []) (first : clusters.getD 0 0 = clusters'.getD 0 0) :
    clusters.length ≤ clusters'.length := by
  by_contra longer
  have same (k : Nat) (inside : k < clusters'.length) :
      clusters.getD k 0 = clusters'.getD k 0 := by
    induction k with
    | zero => exact first
    | succ k ih =>
        have before := ih (by omega)
        rw [← chain.linked k (by omega), ← chain'.linked k inside, before]
  obtain ⟨k, last⟩ : ∃ k, k + 1 = clusters'.length :=
    ⟨clusters'.length - 1, by have := List.length_pos_iff.mpr some; omega⟩
  have mark := chain'.last k last
  rw [← same k (by omega), chain.linked k (by omega)] at mark
  have small := cluster_lt_mark sane (chain.isCluster (k + 1) (by omega))
  omega

end Chains

section Bytes

variable {m : Mount} {disk disk' : Nat → Sector} {clusters : List Nat} {capacity : Nat}
  {contents bytes : List UInt8}

/-- The sector of a chain that holds a position. -/
def Mount.sectorAt (m : Mount) (clusters : List Nat) (pos : Nat) : Nat :=
  m.dataLba (clusters.getD (pos / 512 / m.secPerClus) 0) (pos / 512 % m.secPerClus)

theorem Mount.Chain.sectorAt_inj (sane : m.Sane capacity) (chain : m.Chain disk clusters)
    (nodup : clusters.Nodup) {pos pos' : Nat} (inside : pos / 512 / m.secPerClus < clusters.length)
    (inside' : pos' / 512 / m.secPerClus < clusters.length)
    (same : m.sectorAt clusters pos = m.sectorAt clusters pos') : pos / 512 = pos' / 512 := by
  obtain ⟨cluster, sector⟩ := dataLba_inj (chain.isCluster _ inside) (chain.isCluster _ inside')
    (sector_in_cluster sane pos) (sector_in_cluster sane pos') same
  have index := getD_inj nodup inside inside' cluster
  rw [← Nat.div_add_mod (pos / 512) m.secPerClus, ← Nat.div_add_mod (pos' / 512) m.secPerClus,
    index, sector]

/-- Bytes stored behind the contents, in one sector of the chain. -/
theorem Mount.Chain.appended (sane : m.Sane capacity) (chain : m.Chain disk clusters)
    (nodup : clusters.Nodup) (stored : m.bytesAt disk clusters 0 contents.length = contents)
    (inside : contents.length / 512 / m.secPerClus < clusters.length)
    (inSector : contents.length % 512 + bytes.length ≤ 512) :
    m.bytesAt (Function.update disk (m.sectorAt clusters contents.length)
        ((disk (m.sectorAt clusters contents.length)).blit (contents.length % 512) bytes))
      clusters 0 (contents.length + bytes.length) = contents ++ bytes := by
  rw [Mount.bytesAt_add, Nat.zero_add]
  congr 1
  · refine (List.map_congr_left fun pos mem => ?_).trans stored
    have small := List.mem_range.mp mem
    rw [Nat.zero_add]
    by_cases shared : pos / 512 = contents.length / 512
    · have here : m.sectorAt clusters pos = m.sectorAt clusters contents.length := by
        rw [Mount.sectorAt, Mount.sectorAt, shared]
      change (Function.update disk _ _ (m.sectorAt clusters pos)).get _ =
        (disk (m.sectorAt clusters pos)).get _
      rw [here, Function.update_self, Buffer.get_blit_of_lt _ (by omega)]
    · have before : pos / 512 / m.secPerClus < clusters.length :=
        lt_of_le_of_lt (Nat.div_le_div_right (Nat.div_le_div_right small.le)) inside
      change (Function.update disk _ _ (m.sectorAt clusters pos)).get _ =
        (disk (m.sectorAt clusters pos)).get _
      rw [Function.update_of_ne]
      exact fun same => shared (chain.sectorAt_inj sane nodup before inside same)
  · rw [Mount.bytesAt_sector inSector]
    change (Function.update disk _ _ (m.sectorAt clusters contents.length)).slice _ _ = bytes
    rw [Function.update_self]
    exact Buffer.slice_blit_self _ _ _ (by omega)

theorem Mount.bytesAt_take {pos length total : Nat} (within : length ≤ total) :
    (m.bytesAt disk clusters pos total).take length = m.bytesAt disk clusters pos length := by
  simp [Mount.bytesAt, ← List.map_take, List.take_range, Nat.min_eq_left within]

/-- The bytes of a chain stay when it is extended. -/
theorem Mount.bytesAt_snoc {nc length : Nat}
    (covered : length ≤ clusters.length * m.secPerClus * 512) (sane : m.Sane capacity)
    (same : ∀ lba, m.Outside lba → disk' lba = disk lba) :
    m.bytesAt disk' (clusters ++ [nc]) 0 length = m.bytesAt disk clusters 0 length := by
  refine List.map_congr_left fun pos mem => ?_
  have small := List.mem_range.mp mem
  rw [Nat.zero_add, Mount.byteAt, Mount.byteAt,
    List.getD_append _ _ _ _ (index_lt sane (small.trans_le covered)),
    same _ (dataLba_outside sane)]

end Bytes

section Sectors

variable {d : Driver} {fp : FatFile} {rest : List UInt8}

/-- The driver with nothing in the shared buffer and nothing gone wrong. -/
def Driver.bare (d : Driver) : Driver := d.clean.invalidated

theorem bare_free {d' : Driver} (free : Free d.bare) (m : d'.m = d.m)
    (capacity : d'.blk.capacity = d.blk.capacity) (faults : d'.blk.faults = []) :
    Free d'.bare := by
  refine ⟨⟨Idle.good ⟨⟨⟨rfl, rfl⟩, faults⟩, rfl⟩, ?_⟩, rfl⟩
  change d'.m.Sane d'.blk.capacity
  rw [m, capacity]
  exact free.1.sane

theorem Free.bare (free : Free d) : Free d.bare :=
  ⟨⟨Idle.good ⟨⟨⟨rfl, rfl⟩, free.1.good.1.faults⟩, rfl⟩, free.1.sane⟩, rfl⟩

/-- The driver after a sector of data went through the shared buffer to the disk. -/
def Driver.withData (d : Driver) (lba : Nat) (s : Sector) : Driver :=
  ({ d with fatWbuf := s } : Driver).stored lba s

theorem withData_step {lba : Nat} (free : Free d) (has : d.blk.Has lba) (s : Sector) :
    DiskStep d (d.withData lba s) := by
  obtain ⟨d', run, step, -, -⟩ := writeWbuf_run (free.edited s) has
  obtain ⟨-, same⟩ := writeWbuf_success run
  rw [same] at step
  exact step.of_edited

theorem storeData_run {lba : Nat} (has : d.blk.Has lba) (healthy : d.blk.faults = [])
    (edit : Sector → Sector) {α : Type} (failed : α) (next : DriverM α) :
    (do if !(← loadWbuf lba) then pure failed
        else if !(← updateSec lba edit) then pure failed else next) d =
      next (d.withData lba (edit (d.disk lba))) := by
  have noFault : ¬ d.blk.Faulty := by simp [BlkDev.Faulty, healthy]
  have kept : (d.lostUpdate || decide (edit (d.disk lba) ≠ edit (d.disk lba))) =
      d.lostUpdate := by simp
  have noted : noteUpdate lba edit { d with fatWbuf := d.disk lba } =
      some ((), { d with fatWbuf := d.disk lba }) := by
    rw [noteUpdate, kept]
  have update : updateSec lba edit { d with fatWbuf := d.disk lba } =
      some (true, d.withData lba (edit (d.disk lba))) := by
    rw [updateSec, Prog.bind_eq_of_run noted]
    exact (if_neg (not_not.mpr has)).trans (if_neg noFault)
  rw [loadWbuf_then_run has]
  exact Prog.bind_eq_of_run update

/-- The sector under the position of a handle. -/
def FatFile.lba (fp : FatFile) (m : Mount) : Nat :=
  m.dataLba fp.curClus (fp.curPos / 512 % m.secPerClus)

/-- The bytes a round of `fat_fwrite` stores. -/
def FatFile.chunk (fp : FatFile) (rest : List UInt8) : List UInt8 :=
  rest.take (512 - fp.curPos % 512)

/-- The handle behind them. -/
def FatFile.advanced (fp : FatFile) (count : Nat) : FatFile :=
  { fp with curPos := fp.curPos + count, fileSize := max fp.fileSize (fp.curPos + count) }

theorem FatFile.length_chunk (fp : FatFile) (rest : List UInt8) :
    (fp.chunk rest).length = min (512 - fp.curPos % 512) rest.length := by
  simp [FatFile.chunk]

theorem FatFile.chunk_append (fp : FatFile) (rest : List UInt8) :
    fp.chunk rest ++ rest.drop (fp.chunk rest).length = rest := by
  rw [fp.length_chunk, FatFile.chunk, List.take_eq_take_min, List.take_append_drop]

/-- The driver behind the bytes of one sector. -/
def Driver.chunkStored (d : Driver) (fp : FatFile) (rest : List UInt8) : Driver :=
  d.withData (fp.lba d.m) ((d.disk (fp.lba d.m)).blit (fp.curPos % 512) (fp.chunk rest))

/-- A round of `fat_fwrite` stores the bytes of a sector, whatever the shared buffer holds,
and then moves on if they end at a boundary. -/
theorem fwriteRound_stored (free : Free d.bare) (attached : fp.firstClus ≠ 0)
    (isCluster : d.m.IsCluster fp.curClus) (more : rest ≠ []) {total : Nat}
    (small : fp.curPos + (fp.chunk rest).length < 2 ^ 32) :
    fwriteRound d.m total { fp, rest } d =
      (if (fp.curPos + (fp.chunk rest).length) % (d.m.secPerClus * 512) = 0 ∧
          rest.drop (fp.chunk rest).length ≠ [] then do
        match ← nextForWrite (fp.advanced (fp.chunk rest).length)
            (total - (rest.drop (fp.chunk rest).length).length : Nat) with
        | .error result => pure (.inr result)
        | .ok fp' => pure (.inl { fp := fp', rest := rest.drop (fp.chunk rest).length })
      else pure (.inl { fp := fp.advanced (fp.chunk rest).length
                        rest := rest.drop (fp.chunk rest).length }) :
        DriverM (WriteLoop ⊕ (Int × FatFile))) (d.chunkStored fp rest) := by
  have sane : d.m.Sane d.blk.capacity := free.1.sane
  have lba : u32 (d.m.clusToLba fp.curClus + inCluster d.m.clusSize fp.curPos / 512) =
      fp.lba d.m := by
    rw [inCluster_div sane, clusToLba_add sane isCluster (sector_in_cluster sane _), FatFile.lba]
  have has : d.blk.Has (fp.lba d.m) :=
    has_of_lt sane (dataLba_lt sane isCluster (sector_in_cluster sane fp.curPos))
  have healthy : d.blk.faults = [] := free.1.good.1.faults
  have attach : attachFirst fp ((total - rest.length : Nat) : Int) d = some (.ok fp, d) := by
    rw [attachFirst, if_neg attached]
    rfl
  have chunk : rest.take (512 - fp.curPos % 512) = fp.chunk rest := rfl
  have pos : u32 (fp.curPos + (fp.chunk rest).length) = fp.curPos + (fp.chunk rest).length :=
    u32_of_lt small
  have atEnd := inCluster_eq sane (fp.curPos + (fp.chunk rest).length)
  rw [fwriteRound, if_neg more, Prog.bind_eq_of_run attach]
  simp only [inCluster_mod sane, lba, chunk, pos, atEnd]
  exact storeData_run has healthy (·.blit (fp.curPos % 512) (fp.chunk rest)) _ _

end Sectors

section Growing

/-- A file written from its start on, with the handle at its end and in its last
cluster. -/
structure Growing (m : Mount) (capacity : Nat) (clusters : List Nat) (fp : FatFile) (d : Driver) :
    Prop where
  here : d.m = m
  size : d.blk.capacity = capacity
  free : Free d
  outside : m.Outside fp.slot.lba
  inside : fp.slot.lba < capacity
  inUse : fp.inUse = true
  chain : m.Chain d.disk clusters
  nodup : clusters.Nodup
  first : fp.firstClus = clusters.getD 0 0
  current : fp.curClus = clusters.getD (clusters.length - 1) 0
  whole : fp.fileSize = fp.curPos
  start : clusters = [] → fp.curPos = 0

variable {m : Mount} {capacity : Nat} {clusters : List Nat} {fp : FatFile} {d : Driver}

theorem Growing.sane (growing : Growing m capacity clusters fp d) : m.Sane capacity := by
  have sane := growing.free.1.sane
  rwa [growing.here, growing.size] at sane

theorem Growing.isCluster (growing : Growing m capacity clusters fp d) (some : clusters ≠ []) :
    m.IsCluster fp.curClus := by
  have positive := List.length_pos_iff.mpr some
  rw [growing.current]
  exact growing.chain.isCluster _ (by omega)

theorem exists_free {disk : Nat → Sector} (space : 0 < (m.freeClusters disk).card) :
    ∃ c, m.IsCluster c ∧ m.link disk c = 0 := by
  obtain ⟨c, mem⟩ := Finset.card_pos.mp space
  exact ⟨c, mem_freeClusters.mp mem⟩

/-- The first cluster: allocated, and entered into the directory. -/
theorem attachFirst_grows (growing : Growing m capacity [] fp d)
    (space : 0 < (m.freeClusters d.disk).card) (written : Int) :
    ∃ nc d', attachFirst fp written d = some (.ok { fp with firstClus := nc, curClus := nc }, d') ∧
      Growing m capacity [nc] { fp with firstClus := nc, curClus := nc } d' ∧
      (m.freeClusters d'.disk).card + 1 = (m.freeClusters d.disk).card := by
  obtain ⟨rfl, rfl, free, outside, inside, inUse, -, -, first, -, whole, start⟩ := growing
  have sane := free.1.sane
  obtain ⟨c, isCluster, isFree⟩ := exists_free space
  rcases fatAllocCluster_run free.1 with ⟨nc, d₁, run₁, alloc⟩ | ⟨full, -⟩
  swap
  · exact absurd isFree (full c isCluster)
  have inside₁ : fp.slot.lba < d₁.blk.capacity := by
    rw [alloc.step.capacity]
    exact inside
  obtain ⟨d₂, run₂, step₂, disk₂⟩ :=
    modifyEntry_run alloc.step.free inside₁ fun off => editFirstClus off nc
  have links (x : Nat) : d.m.link d₂.disk x = d.m.link d₁.disk x := by
    rw [disk₂]
    refine link_congr (fun lba inTable => Function.update_of_ne ?_ _ _) sane.fats
    rintro rfl
    exact inTable outside
  have own : d.m.link d₂.disk nc = d.m.eoc := (links nc).trans (alloc.link_self sane)
  have mark : d.m.mark ≤ d.m.link d₂.disk nc := by
    rw [own]
    exact mark_le_eoc sane
  have empty : d.m.Chain d.disk [] := ⟨nofun, nofun, nofun⟩
  obtain ⟨chain, nodup⟩ := empty.snoc List.nodup_nil alloc.isCluster alloc.isFree mark nofun nofun
  refine ⟨nc, d₂, ?_, ⟨step₂.m.trans alloc.step.m, step₂.capacity.trans alloc.step.capacity,
    step₂.free, outside, inside, inUse, chain, nodup, rfl, rfl, whole, nofun⟩, ?_⟩
  · have none : fp.firstClus = 0 := first
    rw [attachFirst, if_pos none, Prog.bind_eq_of_run run₁, if_neg alloc.ne_zero]
    exact Prog.bind_eq_of_run run₂
  · refine card_freeClusters alloc.isCluster alloc.isFree ?_ fun x other => ?_
    · have positive : 0 < d.m.mark := mark_pos
      omega
    · rw [links, alloc.link_of_ne sane other]

/-- A chain that ends visits each cluster once, when no link on the way looks like the end. -/
theorem Mount.Chain.nodup_of_lt {disk : Nat → Sector} (chain : m.Chain disk clusters)
    (linked : ∀ k, k + 1 < clusters.length → clusters.getD (k + 1) 0 < m.mark) :
    clusters.Nodup := by
  have apart (i k : Nat) (later : i < k) (inside : k < clusters.length) :
      clusters.getD i 0 ≠ clusters.getD k 0 := by
    intro same
    -- both positions move on alike until the later one is at the end
    have alike (t : Nat) (within : k + t < clusters.length) :
        clusters.getD (i + t) 0 = clusters.getD (k + t) 0 := by
      induction t with
      | zero => exact same
      | succ t ih =>
          have before := ih (by omega)
          rw [← Nat.add_assoc, ← Nat.add_assoc, ← chain.linked (i + t) (by omega),
            ← chain.linked (k + t) (by omega), before]
    have ends := alike (clusters.length - 1 - k) (by omega)
    have mark := chain.last (k + (clusters.length - 1 - k)) (by omega)
    rw [← ends, chain.linked _ (by omega)] at mark
    have small := linked (i + (clusters.length - 1 - k)) (by omega)
    omega
  rw [List.nodup_iff_getElem?_ne_getElem?]
  intro i k later inside same
  rw [List.getElem?_eq_getElem (by omega), List.getElem?_eq_getElem inside] at same
  apply apart i k later inside
  rw [List.getD_eq_getElem _ _ (by omega), List.getD_eq_getElem _ _ inside]
  exact Option.some.inj same

theorem Mount.Chain.nodup {disk : Nat → Sector} (chain : m.Chain disk clusters)
    (sane : m.Sane capacity) : clusters.Nodup :=
  chain.nodup_of_lt fun k inside => cluster_lt_mark sane (chain.isCluster (k + 1) inside)

/-- The next cluster behind the last one of a chain: allocated and linked. -/
theorem nextForWrite_links (free : Free d) (chain : d.m.Chain d.disk clusters)
    (nonempty : clusters ≠ []) (current : fp.curClus = clusters.getD (clusters.length - 1) 0)
    (space : 0 < (d.m.freeClusters d.disk).card) (written : Int) :
    ∃ nc d', nextForWrite fp written d = some (.ok { fp with curClus := nc }, d') ∧
      DiskStep d d' ∧ d.m.Chain d'.disk (clusters ++ [nc]) ∧
      (d.m.freeClusters d'.disk).card + 1 = (d.m.freeClusters d.disk).card ∧
      ∀ lba, d.m.Outside lba → d'.disk lba = d.disk lba := by
  have sane := free.1.sane
  have nodup := chain.nodup sane
  have positive := List.length_pos_iff.mpr nonempty
  have last : clusters.length - 1 + 1 = clusters.length := by omega
  have isCluster : d.m.IsCluster fp.curClus := by
    rw [current]
    exact chain.isCluster _ (by omega)
  have used : d.m.link d.disk fp.curClus ≠ 0 := by
    rw [current]
    exact chain.used (by omega)
  obtain ⟨c, cIsCluster, isFree⟩ := exists_free space
  obtain ⟨d₁, run₁, step₁⟩ := fatNextClus_run free.1.good sane isCluster.2
  rw [current, chain.next_last last, ← current] at run₁
  have sane₁ : d₁.m.Sane d₁.blk.capacity := (step₁.ready free.1).sane
  rcases fatAllocCluster_run (step₁.ready free.1) with ⟨nc, d₂, run₂, alloc⟩ | ⟨full, -⟩
  swap
  · rw [step₁.m, step₁.disk] at full
    exact absurd isFree (full c cIsCluster)
  obtain ⟨d₃, run₃, app⟩ := appended_run alloc sane₁
    (by rw [step₁.m]; exact isCluster) (by rw [step₁.m, step₁.disk]; exact used)
  obtain ⟨newCluster, newFree, step₃, linkNew, linkLast, linkRest, same, -⟩ := app
  rw [step₁.m] at newCluster
  rw [step₁.m, step₁.disk] at newFree linkRest same
  rw [step₁.m] at linkNew linkLast
  have other : fp.curClus ≠ nc := by
    rintro rfl
    exact used newFree
  have mark : d.m.mark ≤ d.m.link d₃.disk nc := by
    rw [linkNew]
    exact mark_le_eoc sane
  obtain ⟨chain', -⟩ := chain.snoc nodup newCluster newFree mark
    (fun k atEnd => by
      obtain rfl : k = clusters.length - 1 := by omega
      rw [← current]
      exact linkLast)
    (fun k before => by
      refine linkRest _ ?_ ?_
      · rintro same
        exact chain.used (show k < clusters.length by omega) (same ▸ newFree)
      · rw [current]
        intro same
        have index := getD_inj nodup (show k < clusters.length by omega) (by omega) same
        omega)
  refine ⟨nc, d₃, ?_, .of_cache step₁ step₃, chain', ?_, same⟩
  · rw [nextForWrite, Prog.bind_eq_of_run run₁, if_pos rfl, Prog.bind_eq_of_run run₂,
      if_neg alloc.ne_zero]
    exact Prog.bind_eq_of_run run₃
  · refine card_freeClusters newCluster newFree ?_ fun x notNew => ?_
    · have positive : 0 < d.m.mark := mark_pos
      omega
    · by_cases self : x = fp.curClus
      · subst self
        have atLeast := newCluster.1
        simp only [linkLast, used, iff_false]
        omega
      · rw [linkRest x notNew self]

/-- The same for a file that grows. -/
theorem nextForWrite_grows (growing : Growing m capacity clusters fp d) (nonempty : clusters ≠ [])
    (space : 0 < (m.freeClusters d.disk).card) (written : Int) :
    ∃ nc d', nextForWrite fp written d = some (.ok { fp with curClus := nc }, d') ∧
      Growing m capacity (clusters ++ [nc]) { fp with curClus := nc } d' ∧
      (m.freeClusters d'.disk).card + 1 = (m.freeClusters d.disk).card ∧
      ∀ lba, m.Outside lba → d'.disk lba = d.disk lba := by
  obtain ⟨rfl, rfl, free, outside, inside, inUse, chain, nodup, first, current, whole, -⟩ := growing
  have positive := List.length_pos_iff.mpr nonempty
  obtain ⟨nc, d', run, step, chain', card, same⟩ :=
    nextForWrite_links free chain nonempty current space written
  refine ⟨nc, d', run, ⟨step.m, step.capacity, step.free, outside, inside, inUse, chain',
    chain'.nodup free.1.sane, ?_, ?_, whole, ?_⟩, card, same⟩
  · rw [List.getD_append _ _ _ _ positive]
    exact first
  · simp
  · simp

/-- What the bytes of a call, or a part of them, do to the file.  They come behind its
contents when the next byte belongs in the last cluster of the chain. -/
structure Grown (m : Mount) (capacity : Nat) (clusters : List Nat) (fp : FatFile) (d : Driver)
    (bytes : List UInt8) (clusters' : List Nat) (fp' : FatFile) (d' : Driver) : Prop where
  growing : Growing m capacity clusters' fp' d'
  pos : fp'.curPos = fp.curPos + bytes.length
  spare : clusters'.length + (m.freeClusters d'.disk).card =
    clusters.length + (m.freeClusters d.disk).card
  stored : ∀ contents, contents.length = fp.curPos →
    m.bytesAt d.disk clusters 0 contents.length = contents →
    clusters.length = fp.curPos / (m.secPerClus * 512) + 1 →
    m.bytesAt d'.disk clusters' 0 (contents.length + bytes.length) = contents ++ bytes

theorem Grown.refl (growing : Growing m capacity clusters fp d) :
    Grown m capacity clusters fp d [] clusters fp d where
  growing := growing
  pos := rfl
  spare := rfl
  stored := fun contents _ stored _ => by simpa using stored

/-- The bytes of one sector. -/
theorem Growing.sector {d' : Driver} {chunk : List UInt8}
    (growing : Growing m capacity clusters fp d) (nonempty : clusters ≠ [])
    (inSector : fp.curPos % 512 + chunk.length ≤ 512) (step : DiskStep d d')
    (disk : d'.disk = Function.update d.disk
      (m.dataLba fp.curClus (fp.curPos / 512 % m.secPerClus))
      ((d.disk (m.dataLba fp.curClus (fp.curPos / 512 % m.secPerClus))).blit
        (fp.curPos % 512) chunk)) :
    Grown m capacity clusters fp d chunk clusters { fp with
      curPos := fp.curPos + chunk.length
      fileSize := max fp.fileSize (fp.curPos + chunk.length) } d' := by
  have sane := growing.sane
  have links (c : Nat) : m.link d'.disk c = m.link d.disk c := by
    refine link_congr (fun lba inTable => ?_) sane.fats
    rw [disk, Function.update_of_ne]
    rintro rfl
    exact inTable (dataLba_outside sane)
  refine ⟨⟨step.m.trans growing.here, step.capacity.trans growing.size, step.free,
    growing.outside, growing.inside, growing.inUse, growing.chain.congr links, growing.nodup,
    growing.first, growing.current, ?_, fun none => absurd none nonempty⟩, rfl, ?_, ?_⟩
  · have whole := growing.whole
    dsimp only
    omega
  · rw [freeClusters_congr links]
  · intro contents length stored covers
    have index : contents.length / 512 / m.secPerClus = clusters.length - 1 := by
      rw [length, Nat.div_div_eq_div_mul, Nat.mul_comm 512, covers, Nat.add_sub_cancel]
    have positive := List.length_pos_iff.mpr nonempty
    have lba : m.dataLba fp.curClus (fp.curPos / 512 % m.secPerClus) =
        m.sectorAt clusters contents.length := by
      rw [Mount.sectorAt, index, ← growing.current, length]
    rw [disk, lba, ← length]
    rw [← length] at inSector
    exact growing.chain.appended sane growing.nodup stored (by omega) inSector

theorem Growing.attached (growing : Growing m capacity clusters fp d) (nonempty : clusters ≠ []) :
    fp.firstClus ≠ 0 := by
  have isCluster := growing.chain.isCluster 0 (List.length_pos_iff.mpr nonempty)
  rw [growing.first]
  have atLeast := isCluster.1
  omega

theorem attachFirst_attached (growing : Growing m capacity clusters fp d)
    (nonempty : clusters ≠ []) (written : Int) : attachFirst fp written d = some (.ok fp, d) := by
  rw [attachFirst, if_neg (growing.attached nonempty)]
  rfl

theorem Growing.chunkStored (growing : Growing m capacity clusters fp d)
    (nonempty : clusters ≠ []) (rest : List UInt8) :
    Grown m capacity clusters fp d (fp.chunk rest) clusters
      (fp.advanced (fp.chunk rest).length) (d.chunkStored fp rest) := by
  have length := fp.length_chunk rest
  have has : d.blk.Has (fp.lba d.m) := by
    have inside := dataLba_lt growing.sane (growing.isCluster nonempty)
      (sector_in_cluster growing.sane fp.curPos)
    rw [← growing.here, ← growing.size] at inside
    exact has_of_lt growing.free.1.sane inside
  have disk : (d.chunkStored fp rest).disk = Function.update d.disk (fp.lba m)
      ((d.disk (fp.lba m)).blit (fp.curPos % 512) (fp.chunk rest)) := by
    rw [← growing.here]
    rfl
  exact growing.sector nonempty (by omega) (withData_step growing.free has _) disk

/-- One round: the bytes of a sector, and a new cluster at a boundary with bytes left. -/
theorem fwriteRound_grows {rest : List UInt8} {total : Nat}
    (growing : Growing m capacity clusters fp d) (nonempty : clusters ≠ []) (more : rest ≠ [])
    (small : fp.curPos + rest.length < 2 ^ 32)
    (lag : clusters.length ≤ fp.curPos / (m.secPerClus * 512) + 1)
    (fits : fp.curPos + rest.length ≤
      (clusters.length + (m.freeClusters d.disk).card) * (m.secPerClus * 512)) :
    ∃ chunk rest' clusters' fp' d', rest = chunk ++ rest' ∧ chunk ≠ [] ∧
      fwriteRound m total { fp, rest } d = some (.inl { fp := fp', rest := rest' }, d') ∧
      Grown m capacity clusters fp d chunk clusters' fp' d' ∧ clusters' ≠ [] ∧
      (rest' = [] → clusters'.length = clusters.length ∧
        fp.curPos % (m.secPerClus * 512) + chunk.length ≤ m.secPerClus * 512) ∧
      (rest' ≠ [] → clusters'.length + fp.curPos / (m.secPerClus * 512) =
        clusters.length + fp'.curPos / (m.secPerClus * 512)) := by
  have positive := growing.sane.sectors
  have length := fp.length_chunk rest
  have split := fp.chunk_append rest
  have start : fwriteRound d.m total { fp, rest } d = _ :=
    fwriteRound_stored growing.free.bare (growing.attached nonempty)
      (growing.here.symm ▸ growing.isCluster nonempty) more (by omega)
  rw [growing.here] at start
  have grown := growing.chunkStored nonempty rest
  generalize fp.chunk rest = chunk at start grown length split
  have someRest := List.length_pos_iff.mpr more
  have someChunk : 0 < chunk.length := by omega
  have within := within_cluster positive (show fp.curPos % 512 + chunk.length ≤ 512 by omega)
  generalize rest.drop chunk.length = rest' at start split
  have total_length : rest.length = chunk.length + rest'.length := by
    rw [← split, List.length_append]
  generalize fp.advanced chunk.length = fp₁ at start grown
  generalize d.chunkStored fp rest = d₁ at start grown
  have pos₁ : fp₁.curPos = fp.curPos + chunk.length := grown.pos
  by_cases boundary : (fp.curPos + chunk.length) % (m.secPerClus * 512) = 0 ∧ rest' ≠ []
  · obtain ⟨next, upTo⟩ := ends_piece (by omega) someChunk within boundary.1
    have left := List.length_pos_iff.mpr boundary.2
    have spare := grown.spare
    have space : 0 < (m.freeClusters d₁.disk).card := by
      have fewer : fp.curPos / (m.secPerClus * 512) + 1 <
          clusters.length + (m.freeClusters d.disk).card := by
        apply Nat.lt_of_mul_lt_mul_right (a := m.secPerClus * 512)
        omega
      omega
    obtain ⟨nc, d₂, run₂, growing₂, card₂, same₂⟩ :=
      nextForWrite_grows grown.growing nonempty space (total - rest'.length : Nat)
    refine ⟨chunk, rest', clusters ++ [nc], { fp₁ with curClus := nc }, d₂, split.symm,
      List.length_pos_iff.mp someChunk, ?_, ⟨growing₂, grown.pos, ?_, ?_⟩, by simp,
      fun none => absurd none boundary.2, fun _ => ?_⟩
    · rw [start, if_pos boundary]
      exact Prog.bind_eq_of_run run₂
    · rw [List.length_append, List.length_singleton]
      omega
    · intro contents length stored covers
      refine Eq.trans ?_ (grown.stored contents length stored covers)
      refine Mount.bytesAt_snoc ?_ growing.sane same₂
      rw [length, upTo, Nat.mul_assoc, covers]
    · change _ = clusters.length + fp₁.curPos / (m.secPerClus * 512)
      rw [pos₁, next, List.length_append, List.length_singleton]
      omega
  · refine ⟨chunk, rest', clusters, fp₁, d₁, split.symm, List.length_pos_iff.mp someChunk, ?_,
      grown, nonempty, fun _ => ⟨rfl, within⟩, fun left => ?_⟩
    · rw [start, if_neg boundary]
      rfl
    · rw [pos₁, div_inside]
      exact stays_inside (by omega) within fun full => boundary ⟨full, left⟩

theorem Grown.trans {first second : List UInt8} {clusters₁ clusters₂ : List Nat}
    {fp₁ fp₂ : FatFile} {d₁ d₂ : Driver}
    (grown₁ : Grown m capacity clusters fp d first clusters₁ fp₁ d₁)
    (grown₂ : Grown m capacity clusters₁ fp₁ d₁ second clusters₂ fp₂ d₂)
    (count : clusters₁.length + fp.curPos / (m.secPerClus * 512) =
      clusters.length + fp₁.curPos / (m.secPerClus * 512)) :
    Grown m capacity clusters fp d (first ++ second) clusters₂ fp₂ d₂ where
  growing := grown₂.growing
  pos := by rw [grown₂.pos, grown₁.pos, List.length_append, Nat.add_assoc]
  spare := grown₂.spare.trans grown₁.spare
  stored := by
    intro contents length stored covers
    have stored₁ := grown₁.stored contents length stored covers
    rw [← List.length_append] at stored₁
    have stored₂ := grown₂.stored (contents ++ first)
      (by rw [List.length_append, length, grown₁.pos]) stored₁ (by omega)
    rw [List.length_append, List.append_assoc] at stored₂
    rwa [List.length_append, ← Nat.add_assoc]

/-- The loop of `fat_fwrite`: a cluster is linked for each boundary before the last
byte. -/
theorem fwriteLoop_grows {rest : List UInt8} {total rounds : Nat}
    (growing : Growing m capacity clusters fp d) (nonempty : clusters ≠ [])
    (small : fp.curPos + rest.length < 2 ^ 32)
    (lag : clusters.length ≤ fp.curPos / (m.secPerClus * 512) + 1)
    (fits : fp.curPos + rest.length ≤
      (clusters.length + (m.freeClusters d.disk).card) * (m.secPerClus * 512))
    (enough : rest.length < rounds) :
    ∃ clusters' fp' d',
      Prog.loop (fwriteRound m total) rounds { fp, rest } d = some (((total : Int), fp'), d') ∧
      Grown m capacity clusters fp d rest clusters' fp' d' ∧ clusters' ≠ [] ∧
      (rest ≠ [] → clusters'.length + fp.curPos / (m.secPerClus * 512) =
        clusters.length + (fp.curPos + rest.length - 1) / (m.secPerClus * 512)) := by
  induction rounds generalizing clusters fp d rest with
  | zero => omega
  | succ rounds ih =>
      by_cases more : rest = []
      · subst more
        exact ⟨clusters, fp, d, Prog.loop_inr (by rw [fwriteRound, if_pos rfl]; rfl),
          .refl growing, nonempty, fun absurd => (absurd rfl).elim⟩
      obtain ⟨chunk, rest', clusters₁, fp₁, d₁, rfl, someChunk, run₁, grown₁, nonempty₁, last,
        count⟩ := fwriteRound_grows growing nonempty more small lag fits
      have positive := List.length_pos_iff.mpr someChunk
      have pos₁ := grown₁.pos
      have spare₁ := grown₁.spare
      rw [List.length_append] at small fits enough
      rw [Prog.loop_inl run₁]
      by_cases left : rest' = []
      · subst left
        obtain ⟨same, within⟩ := last rfl
        obtain ⟨rounds, rfl⟩ : ∃ more, rounds = more + 1 := ⟨rounds - 1, by omega⟩
        refine ⟨clusters₁, fp₁, d₁, Prog.loop_inr (by rw [fwriteRound, if_pos rfl]; rfl), ?_,
          nonempty₁, fun _ => ?_⟩
        · rw [List.append_nil]
          exact grown₁
        · rw [List.append_nil, div_last positive within, same]
      · have count₁ := count left
        have small₁ : fp₁.curPos + rest'.length < 2 ^ 32 := by omega
        obtain ⟨clusters₂, fp₂, d₂, run₂, grown₂, nonempty₂, count₂⟩ := ih grown₁.growing nonempty₁
          small₁ (by omega) (by rw [spare₁, pos₁]; omega) (by omega)
        refine ⟨clusters₂, fp₂, d₂, run₂, grown₁.trans grown₂ count₁, nonempty₂, fun _ => ?_⟩
        have last₂ := count₂ left
        have total : fp₁.curPos + rest'.length = fp.curPos + (chunk.length + rest'.length) := by
          omega
        rw [total] at last₂
        rw [List.length_append]
        omega

theorem fwriteRound_attached (m : Mount) {fp₁ : FatFile} {d₁ : Driver} {rest : List UInt8}
    {total : Nat} (more : rest ≠ [])
    (attached : attachFirst fp ((total - rest.length : Nat) : Int) d = some (.ok fp₁, d₁))
    (kept : attachFirst fp₁ ((total - rest.length : Nat) : Int) d₁ = some (.ok fp₁, d₁)) :
    fwriteRound m total { fp, rest } d = fwriteRound m total { fp := fp₁, rest } d₁ := by
  rw [fwriteRound, fwriteRound, if_neg more, if_neg more, Prog.bind_eq_of_run attached,
    Prog.bind_eq_of_run kept]

/-- What a call with some bytes does: the first cluster is attached, and one more is linked
for each boundary before the last byte. -/
structure Called (m : Mount) (capacity : Nat) (clusters : List Nat) (fp : FatFile) (d : Driver)
    (bytes : List UInt8) (clusters' : List Nat) (fp' : FatFile) (d' : Driver) : Prop where
  growing : Growing m capacity clusters' fp' d'
  nonempty : clusters' ≠ []
  pos : fp'.curPos = fp.curPos + bytes.length
  spare : clusters'.length + (m.freeClusters d'.disk).card =
    clusters.length + (m.freeClusters d.disk).card
  count : clusters'.length + fp.curPos / (m.secPerClus * 512) =
    max clusters.length 1 + (fp.curPos + bytes.length - 1) / (m.secPerClus * 512)
  stored : ∀ contents, contents.length = fp.curPos →
    m.bytesAt d.disk clusters 0 contents.length = contents →
    max clusters.length 1 = fp.curPos / (m.secPerClus * 512) + 1 →
    m.bytesAt d'.disk clusters' 0 (contents.length + bytes.length) = contents ++ bytes

theorem fatFwrite_grows {bytes : List UInt8} {rounds : Nat}
    (growing : Growing m capacity clusters fp d) (nonempty : bytes ≠ [])
    (small : fp.curPos + bytes.length < 2 ^ 32)
    (lag : clusters.length ≤ fp.curPos / (m.secPerClus * 512) + 1)
    (fits : fp.curPos + bytes.length ≤
      (clusters.length + (m.freeClusters d.disk).card) * (m.secPerClus * 512))
    (enough : bytes.length < rounds) :
    ∃ clusters' fp' d',
      fatFwrite rounds fp bytes d = some (((bytes.length : Int), fp'), d') ∧
      Called m capacity clusters fp d bytes clusters' fp' d' := by
  have here := growing.here
  subst here
  have opened : ¬ ((!fp.inUse) = true ∨ (!d.m.valid) = true) := by
    simp [growing.inUse, growing.sane.valid]
  have start : fatFwrite rounds fp bytes d =
      Prog.loop (fwriteRound d.m bytes.length) rounds { fp, rest := bytes } d := by
    rw [fatFwrite, Prog.bind_eq_of_run (mount_run d), if_neg opened,
      Prog.bind_eq_of_run (invalidate_run d)]
    exact congrArg _ growing.free.invalidated_eq
  rw [start]
  by_cases none : clusters = []
  · subst none
    have positive := List.length_pos_iff.mpr nonempty
    have atStart := growing.start rfl
    have space : 0 < (d.m.freeClusters d.disk).card := by
      by_contra full
      rw [Nat.eq_zero_of_not_pos full, List.length_nil, Nat.add_zero, Nat.zero_mul] at fits
      omega
    obtain ⟨nc, d₁, run₁, growing₁, card₁⟩ := attachFirst_grows growing space
      ((bytes.length - bytes.length : Nat) : Int)
    have some₁ : [nc] ≠ [] := List.cons_ne_nil _ _
    obtain ⟨rounds, rfl⟩ : ∃ more, rounds = more + 1 := ⟨rounds - 1, by omega⟩
    have same := Prog.loop_congr (fwriteRound_attached d.m nonempty run₁
      (attachFirst_attached growing₁ some₁ _)) rounds
    have count₁ : [nc].length + (d.m.freeClusters d₁.disk).card =
        ([] : List Nat).length + (d.m.freeClusters d.disk).card := by
      simp only [List.length_singleton, List.length_nil]
      omega
    rw [← count₁] at fits
    obtain ⟨clusters', fp', d', run', grown', nonempty', count'⟩ :=
      fwriteLoop_grows growing₁ some₁ small (by simp) fits enough
    refine ⟨clusters', fp', d', same.trans run', grown'.growing, nonempty', grown'.pos,
      grown'.spare.trans count₁, count' nonempty, ?_⟩
    intro contents length stored covers
    refine grown'.stored contents length ?_ covers
    rw [atStart, List.length_eq_zero_iff] at length
    subst length
    rfl
  · have some := List.length_pos_iff.mpr none
    obtain ⟨clusters', fp', d', run', grown', nonempty', count'⟩ :=
      fwriteLoop_grows growing none small lag fits enough
    refine ⟨clusters', fp', d', run', grown'.growing, nonempty', grown'.pos, grown'.spare, ?_, ?_⟩
    · rw [Nat.max_eq_left some]
      exact count' nonempty
    · rw [Nat.max_eq_left some]
      exact grown'.stored

end Growing

section Calls

/-- Calls of `fat_fwrite` one after the other, with their results. -/
def writeAll (rounds : Nat) : List (List UInt8) → FatFile → DriverM (List Int × FatFile)
  | [], fp => pure ([], fp)
  | bytes :: rest, fp => do
      let (code, fp) ← fatFwrite rounds fp bytes
      let (codes, fp) ← writeAll rounds rest fp
      pure (code :: codes, fp)

/-- Each call returns its full length, and afterwards the bytes that are reached through
the chain, cut at the file size, are the bytes of the calls. -/
def WritesAll (rounds : Nat) (buffers : List (List UInt8)) (fp : FatFile) (d : Driver) : Prop :=
  ∃ fp' d' clusters,
    writeAll rounds buffers fp d = some ((buffers.map fun bytes => (bytes.length : Int), fp'), d') ∧
    d'.m.Chain d'.disk clusters ∧ fp'.firstClus = clusters.getD 0 0 ∧
    (d'.m.bytesAt d'.disk clusters 0 (clusters.length * d'.m.secPerClus * 512)).take
      fp'.fileSize = buffers.flatten

/-- No call with bytes begins on a cluster boundary behind the start of the file. -/
def CutsInside (size : Nat) : Nat → List (List UInt8) → Prop
  | _, [] => True
  | pos, bytes :: rest =>
      (bytes = [] ∨ pos = 0 ∨ pos % size ≠ 0) ∧ CutsInside size (pos + bytes.length) rest

instance (size : Nat) : (pos : Nat) → (buffers : List (List UInt8)) →
    Decidable (CutsInside size pos buffers)
  | _, [] => inferInstanceAs (Decidable True)
  | pos, bytes :: rest =>
      have : Decidable (CutsInside size (pos + bytes.length) rest) :=
        instDecidableCutsInside size (pos + bytes.length) rest
      inferInstanceAs (Decidable (_ ∧ _))

variable {m : Mount} {capacity : Nat} {clusters : List Nat} {fp : FatFile} {d : Driver}

/-- The chain ends with the cluster of the last byte, and the contents are in it. -/
structure Filled (m : Mount) (disk : Nat → Sector) (clusters : List Nat) (pos : Nat)
    (contents : List UInt8) : Prop where
  length : contents.length = pos
  stored : m.bytesAt disk clusters 0 contents.length = contents
  count : clusters.length = (pos + m.secPerClus * 512 - 1) / (m.secPerClus * 512)

/-- The chain is too short for the bytes before the position. -/
def Short (m : Mount) (clusters : List Nat) (pos : Nat) : Prop :=
  clusters ≠ [] ∧ clusters.length * (m.secPerClus * 512) < pos

theorem ceil_eq {size pos : Nat} (positive : 0 < size) (some : 0 < pos) :
    (pos + size - 1) / size = (pos - 1) / size + 1 := by
  rw [← Nat.add_div_right _ positive]
  congr 1
  omega

theorem ceil_inside {size pos : Nat} (positive : 0 < size) (inside : pos % size ≠ 0) :
    (pos + size - 1) / size = pos / size + 1 := by
  have some : 0 < pos := by
    by_contra zero
    rw [Nat.eq_zero_of_not_pos zero, Nat.zero_mod] at inside
    exact inside rfl
  have before := Nat.mod_lt pos positive
  have split := Nat.div_add_mod pos size
  have same : (pos - 1) / size = pos / size := by
    rw [Nat.mul_comm] at split
    apply Nat.div_eq_of_lt_le
    · omega
    · rw [Nat.add_mul, Nat.one_mul]
      omega
  rw [ceil_eq positive some, same]

theorem ceil_boundary {size pos : Nat} (positive : 0 < size) (boundary : pos % size = 0) :
    (pos + size - 1) / size = pos / size := by
  obtain ⟨k, rfl⟩ := Nat.dvd_of_mod_eq_zero boundary
  rw [Nat.mul_div_cancel_left _ positive, Nat.add_sub_assoc positive, Nat.mul_add_div positive,
    Nat.div_eq_of_lt (by omega), Nat.add_zero]

variable {bytes contents : List UInt8} {clusters' : List Nat} {fp' : FatFile} {d' : Driver}

theorem Called.filled (called : Called m capacity clusters fp d bytes clusters' fp' d')
    (some : bytes ≠ []) (filled : Filled m d.disk clusters fp.curPos contents)
    (cut : fp.curPos = 0 ∨ fp.curPos % (m.secPerClus * 512) ≠ 0) :
    Filled m d'.disk clusters' fp'.curPos (contents ++ bytes) := by
  have sectors := called.growing.sane.sectors
  have positive : 0 < m.secPerClus * 512 := by omega
  have length := List.length_pos_iff.mpr some
  have pos := called.pos
  have covers : max clusters.length 1 = fp.curPos / (m.secPerClus * 512) + 1 := by
    have count := filled.count
    rcases cut with start | inside
    · rw [start, Nat.zero_add, Nat.div_eq_of_lt (by omega)] at count
      rw [start, Nat.zero_div, count]
      rfl
    · rw [ceil_inside positive inside] at count
      rw [count]
      exact Nat.max_eq_left (Nat.le_add_left 1 _)
  have count := called.count
  refine ⟨?_, ?_, ?_⟩
  · rw [List.length_append, filled.length, pos]
  · rw [List.length_append]
    exact called.stored contents filled.length filled.stored covers
  · rw [ceil_eq positive (by omega), pos]
    omega

/-- The first call that begins on a boundary overwrites: no cluster is linked for it. -/
theorem Called.short_of_filled (called : Called m capacity clusters fp d bytes clusters' fp' d')
    (some : bytes ≠ []) (filled : Filled m d.disk clusters fp.curPos contents)
    (behind : fp.curPos ≠ 0) (boundary : fp.curPos % (m.secPerClus * 512) = 0) :
    Short m clusters' fp'.curPos := by
  have sectors := called.growing.sane.sectors
  have positive : 0 < m.secPerClus * 512 := by omega
  have length := List.length_pos_iff.mpr some
  have pos := called.pos
  have atLeast : 0 < fp.curPos / (m.secPerClus * 512) :=
    Nat.div_pos (Nat.le_of_dvd (by omega) (Nat.dvd_of_mod_eq_zero boundary)) positive
  have count := called.count
  rw [filled.count, ceil_boundary positive boundary, Nat.max_eq_left atLeast] at count
  refine ⟨called.nonempty, ?_⟩
  have most := Nat.div_mul_le_self (fp.curPos + bytes.length - 1) (m.secPerClus * 512)
  have same : clusters'.length = (fp.curPos + bytes.length - 1) / (m.secPerClus * 512) := by omega
  rw [same]
  omega

theorem Called.short (called : Called m capacity clusters fp d bytes clusters' fp' d')
    (some : bytes ≠ []) (short : Short m clusters fp.curPos) : Short m clusters' fp'.curPos := by
  have sectors := called.growing.sane.sectors
  have positive : 0 < m.secPerClus * 512 := by omega
  have length := List.length_pos_iff.mpr some
  have pos := called.pos
  have count := called.count
  have atLeast := List.length_pos_iff.mpr short.1
  have lag : clusters.length ≤ fp.curPos / (m.secPerClus * 512) :=
    (Nat.le_div_iff_mul_le positive).mpr short.2.le
  rw [Nat.max_eq_left atLeast] at count
  refine ⟨called.nonempty, ?_⟩
  have most := Nat.div_mul_le_self (fp.curPos + bytes.length - 1) (m.secPerClus * 512)
  have fewer : clusters'.length ≤ (fp.curPos + bytes.length - 1) / (m.secPerClus * 512) := by omega
  have covered := Nat.mul_le_mul_right (m.secPerClus * 512) fewer
  omega

theorem fatFwrite_empty {rounds : Nat} (growing : Growing m capacity clusters fp d)
    (enough : 0 < rounds) : fatFwrite rounds fp [] d = some ((0, fp), d) := by
  have here := growing.here
  subst here
  have opened : ¬ ((!fp.inUse) = true ∨ (!d.m.valid) = true) := by
    simp [growing.inUse, growing.sane.valid]
  obtain ⟨rounds, rfl⟩ : ∃ more, rounds = more + 1 := ⟨rounds - 1, by omega⟩
  rw [fatFwrite, Prog.bind_eq_of_run (mount_run d), if_neg opened,
    Prog.bind_eq_of_run (invalidate_run d)]
  refine (Prog.loop_inr ?_).trans (congrArg _ (congrArg _ growing.free.invalidated_eq))
  rw [fwriteRound, if_pos rfl]
  rfl

/-- A run of calls, from a file whose chain is as long as it should be or is too short
already. -/
theorem writeAll_grows {buffers : List (List UInt8)} {rounds : Nat}
    (growing : Growing m capacity clusters fp d)
    (stage : Filled m d.disk clusters fp.curPos contents ∨ Short m clusters fp.curPos)
    (small : fp.curPos + buffers.flatten.length < 2 ^ 32)
    (fits : fp.curPos + buffers.flatten.length ≤
      (clusters.length + (m.freeClusters d.disk).card) * (m.secPerClus * 512))
    (enough : ∀ bytes ∈ buffers, bytes.length < rounds) :
    ∃ clusters' fp' d',
      writeAll rounds buffers fp d =
        some ((buffers.map fun bytes => (bytes.length : Int), fp'), d') ∧
      Growing m capacity clusters' fp' d' ∧
      fp'.curPos = fp.curPos + buffers.flatten.length ∧
      (Filled m d.disk clusters fp.curPos contents ∧
          CutsInside (m.secPerClus * 512) fp.curPos buffers →
        Filled m d'.disk clusters' fp'.curPos (contents ++ buffers.flatten)) ∧
      (Short m clusters fp.curPos ∨ ¬ CutsInside (m.secPerClus * 512) fp.curPos buffers →
        Short m clusters' fp'.curPos) := by
  have sectors := growing.sane.sectors
  have positive : 0 < m.secPerClus * 512 := by omega
  induction buffers generalizing clusters fp d contents with
  | nil =>
      refine ⟨clusters, fp, d, rfl, growing, rfl, ?_, ?_⟩
      · rw [List.flatten_nil, List.append_nil]
        exact And.left
      · rintro (short | uncut)
        · exact short
        · exact absurd trivial uncut
  | cons bytes rest ih =>
      have enoughRest : ∀ bytes ∈ rest, bytes.length < rounds :=
        fun bytes mem => enough bytes (List.mem_cons_of_mem _ mem)
      have enoughHere := enough bytes List.mem_cons_self
      rw [List.flatten_cons, List.length_append] at small fits
      by_cases none : bytes = []
      · subst none
        rw [List.length_nil, Nat.zero_add] at small fits
        obtain ⟨clusters', fp', d', run', growing', pos', filled', short'⟩ :=
          ih growing stage small fits enoughRest
        refine ⟨clusters', fp', d', ?_, growing', pos',
          fun filled => filled' ⟨filled.1, filled.2.2⟩,
          fun short => short' (short.imp id fun uncut cut => uncut ⟨.inl rfl, cut⟩)⟩
        rw [writeAll, Prog.bind_eq_of_run (fatFwrite_empty growing enoughHere)]
        exact Prog.bind_eq_of_run run'
      have lag : clusters.length ≤ fp.curPos / (m.secPerClus * 512) + 1 := by
        rcases stage with filled | short
        · rw [filled.count, ← Nat.add_div_right _ positive]
          exact Nat.div_le_div_right (by omega)
        · have most := (Nat.le_div_iff_mul_le positive).mpr short.2.le
          omega
      obtain ⟨clusters₁, fp₁, d₁, run₁, called⟩ :=
        fatFwrite_grows growing none (by omega) lag (by omega) enoughHere
      have pos₁ := called.pos
      have spare₁ := called.spare
      -- the cut before this call decides what the call does to a file that was filled
      have stage₁ : Filled m d₁.disk clusters₁ fp₁.curPos (contents ++ bytes) ∨
          Short m clusters₁ fp₁.curPos := by
        rcases stage with filled | short
        · by_cases cut : fp.curPos = 0 ∨ fp.curPos % (m.secPerClus * 512) ≠ 0
          · exact .inl (called.filled none filled cut)
          · rw [not_or, not_not] at cut
            exact .inr (called.short_of_filled none filled cut.1 cut.2)
        · exact .inr (called.short none short)
      obtain ⟨clusters', fp', d', run', growing', pos', filled', short'⟩ :=
        ih called.growing stage₁ (by omega) (by rw [pos₁, spare₁]; omega) enoughRest
      refine ⟨clusters', fp', d', ?_, growing', ?_, ?_, ?_⟩
      · rw [writeAll, Prog.bind_eq_of_run run₁]
        exact Prog.bind_eq_of_run run'
      · rw [List.flatten_cons, List.length_append]
        omega
      · rintro ⟨filled, cut, cuts⟩
        rw [List.flatten_cons, ← List.append_assoc]
        rw [← pos₁] at cuts
        exact filled' ⟨called.filled none filled (cut.resolve_left none), cuts⟩
      · intro bad
        apply short'
        by_cases short : Short m clusters fp.curPos
        · exact .inl (called.short none short)
        have filled := stage.resolve_right short
        have uncut := bad.resolve_left short
        by_cases cut : fp.curPos = 0 ∨ fp.curPos % (m.secPerClus * 512) ≠ 0
        · right
          rw [pos₁]
          exact fun cuts => uncut ⟨.inr cut, cuts⟩
        · left
          rw [not_or, not_not] at cut
          exact called.short_of_filled none filled cut.1 cut.2

theorem writeAll_blind (rounds : Nat) (buffers : List (List UInt8)) (fp : FatFile) :
    Blind (writeAll rounds buffers fp) := by
  induction buffers generalizing fp with
  | nil => exact pure_blind _
  | cons bytes rest ih =>
      exact .bind (fatFwrite_blind rounds fp bytes) fun result =>
        .bind (ih result.2) fun _ => pure_blind _

theorem writeAll_held {slot : Slot} (sane : m.Sane capacity) (rounds : Nat)
    (buffers : List (List UInt8)) :
    Triple (Held m capacity slot fp) (writeAll rounds buffers fp)
      fun result => Held m capacity slot result.2 := by
  induction buffers generalizing fp with
  | nil => exact Triple.pure fun _ => id
  | cons bytes rest ih =>
      exact Triple.bind (fatFwrite_held sane rounds bytes) fun _ =>
        Triple.bind ih fun _ => Triple.pure fun _ => id

variable {rounds : Nat} {buffers : List (List UInt8)}

theorem WritesAll.of_runs {e : Driver} (writes : WritesAll rounds buffers fp d)
    (same : ∀ result d', writeAll rounds buffers fp d = some (result, d') →
      ∃ e', writeAll rounds buffers fp e = some (result, e') ∧ e'.m = d'.m ∧ e'.disk = d'.disk) :
    WritesAll rounds buffers fp e := by
  obtain ⟨fp', d', clusters, run, chain, first, bytes⟩ := writes
  obtain ⟨e', run', m', disk'⟩ := same _ d' run
  refine ⟨fp', e', clusters, run', ?_, first, ?_⟩
  · rwa [m', disk']
  · rwa [m', disk']

theorem writeAll_invalidated (inUse : fp.inUse = true) (valid : d.m.valid = true)
    (nonempty : buffers ≠ []) :
    writeAll rounds buffers fp d.invalidated = writeAll rounds buffers fp d := by
  obtain ⟨bytes, rest, rfl⟩ := List.exists_cons_of_ne_nil nonempty
  have opened : ¬ ((!fp.inUse) = true ∨ (!d.m.valid) = true) := by simp [inUse, valid]
  have here : fatFwrite rounds fp bytes d.invalidated = fatFwrite rounds fp bytes d := by
    rw [fatFwrite, Prog.bind_eq_of_run (mount_run _), Prog.bind_eq_of_run (mount_run _),
      if_neg opened]
    exact congrFun (if_neg opened) _
  rw [writeAll, Prog.bind_run, Prog.bind_run, here]

/-- What went wrong before, and what the shared buffer holds, does not matter. -/
theorem writesAll_cleared (inUse : fp.inUse = true) (valid : d.m.valid = true) :
    WritesAll rounds buffers fp d ↔ WritesAll rounds buffers fp d.clean.invalidated := by
  have clean : WritesAll rounds buffers fp d ↔ WritesAll rounds buffers fp d.clean := by
    have blind := writeAll_blind rounds buffers fp
    constructor <;> intro writes <;> refine writes.of_runs fun result d' run => ?_
    · obtain ⟨t, run', left⟩ := blind.run run
      have m' : t.clean.m = d'.clean.m := by rw [left]
      have disk' : t.clean.disk = d'.clean.disk := by rw [left]
      exact ⟨t, run', m', disk'⟩
    · obtain ⟨t, run', left⟩ := blind.run_back run
      have m' : t.clean.m = d'.clean.m := by rw [left]
      have disk' : t.clean.disk = d'.clean.disk := by rw [left]
      exact ⟨t, run', m', disk'⟩
  rw [clean]
  by_cases none : buffers = []
  · subst none
    constructor <;> intro writes <;> refine writes.of_runs fun result d' run => ?_ <;>
      obtain ⟨rfl, rfl⟩ := Prod.mk.inj (Option.some.inj run) <;> exact ⟨_, rfl, rfl, rfl⟩
  · have same : writeAll rounds buffers fp d.clean.invalidated =
        writeAll rounds buffers fp d.clean := writeAll_invalidated inUse valid none
    rw [WritesAll, WritesAll, same]

/-- A created file, once the shared buffer is marked invalid. -/
theorem growing_of_created {slot : Slot} (sane : m.Sane capacity)
    (steady : Steady m capacity d) (outside : m.Outside slot.lba) (inside : slot.lba < capacity) :
    Growing m capacity [] (.created slot) d.clean.invalidated where
  here := steady.here
  size := steady.size
  free := by
    refine ⟨⟨Idle.good ⟨⟨⟨rfl, rfl⟩, steady.faults⟩, rfl⟩, ?_⟩, rfl⟩
    change d.m.Sane d.blk.capacity
    rwa [steady.here, steady.size]
  outside := outside
  inside := inside
  inUse := rfl
  chain := ⟨nofun, nofun, nofun⟩
  nodup := List.nodup_nil
  first := rfl
  current := rfl
  whole := rfl
  start := fun _ => rfl

theorem writesAll_iff_growing (growing : Growing m capacity [] fp d)
    (fits : buffers.flatten.length ≤ (m.freeClusters d.disk).card * m.clusSize)
    (enough : ∀ bytes ∈ buffers, bytes.length < rounds)
    (small : buffers.flatten.length < 2 ^ 32) :
    WritesAll rounds buffers fp d ↔ CutsInside m.clusSize 0 buffers := by
  have sane := growing.sane
  have sectors := sane.sectors
  have start := growing.start rfl
  rw [clusSize_eq sane] at fits ⊢
  have filled : Filled m d.disk [] fp.curPos [] := by
    refine ⟨start.symm, rfl, ?_⟩
    rw [start, Nat.zero_add, Nat.div_eq_of_lt (by omega)]
    rfl
  obtain ⟨clusters', fp', d', run, growing', pos', filled', short'⟩ := writeAll_grows growing
    (.inl filled) (by rw [start]; omega)
    (by rw [start, List.length_nil, Nat.zero_add, Nat.zero_add]; exact fits) enough
  rw [start, Nat.zero_add] at pos'
  rw [start] at filled' short'
  constructor
  · rintro ⟨fp₂, d₂, clusters, run₂, chain, first, bytes⟩
    obtain ⟨result, rfl⟩ := Prod.mk.inj (Option.some.inj (run.symm.trans run₂))
    obtain ⟨-, rfl⟩ := Prod.mk.inj result
    by_contra uncut
    obtain ⟨nonempty, short⟩ := short' (.inr uncut)
    rw [growing'.here] at chain bytes
    have fewer := chain.length_le sane growing'.chain nonempty (first.symm.trans growing'.first)
    have covered := Nat.mul_le_mul_right (m.secPerClus * 512) fewer
    have length := congrArg List.length bytes
    rw [List.length_take, Mount.length_bytesAt, growing'.whole, pos', Nat.mul_assoc] at length
    omega
  · intro cuts
    obtain ⟨length, stored, count⟩ := filled' ⟨start ▸ filled, cuts⟩
    rw [List.nil_append] at length stored
    refine ⟨fp', d', clusters', run, ?_, growing'.first, ?_⟩
    · rw [growing'.here]
      exact growing'.chain
    · have positive : 0 < m.secPerClus * 512 := by omega
      have rounded := Nat.div_add_mod (fp'.curPos + m.secPerClus * 512 - 1) (m.secPerClus * 512)
      have least := Nat.mod_lt (fp'.curPos + m.secPerClus * 512 - 1) positive
      rw [← count, Nat.mul_comm, ← Nat.mul_assoc] at rounded
      rw [growing'.here, growing'.whole, Mount.bytesAt_take (by omega), ← length]
      exact stored

theorem length_lt_of_writesAll {slot : Slot} (sane : m.Sane capacity)
    (held : Held m capacity slot fp d) (writes : WritesAll rounds buffers fp d) :
    buffers.flatten.length < 2 ^ 32 := by
  obtain ⟨fp', d', clusters, run, -, -, bytes⟩ := writes
  have held' := writeAll_held sane rounds buffers d held _ d' run
  have length := congrArg List.length bytes
  rw [List.length_take] at length
  have small := held'.size_lt
  dsimp only at small
  omega

/-- A created file as it is before its first call. -/
theorem fatFcreate_growing {d₀ d₁ : Driver} {rounds : Nat} {path : List UInt8}
    {fp₀ fp₁ : FatFile} (ready : Ready d₀)
    (created : fatFcreate rounds path fp₀ d₀ = some ((0, fp₁), d₁))
    (outside : d₀.m.type = .fat32 → d₀.m.Outside fp₁.slot.lba) :
    Growing d₀.m d₀.blk.capacity [] fp₁ d₁.clean.invalidated ∧
      Held d₀.m d₀.blk.capacity fp₁.slot fp₁ d₁ := by
  have sane := ready.sane
  obtain ⟨slot, rfl, entry, held⟩ := fatFcreate_held ready created
  refine ⟨growing_of_created sane held.steady ?_ entry.has.2, held⟩
  by_cases fat32 : d₀.m.type = .fat32
  · exact outside fat32
  · have apart : d₀.m.RootApart d₀.disk :=
      ⟨fun wide => absurd wide fat32, fun wide => absurd wide fat32⟩
    exact (fatFcreate_created ready (createClear_of_fixedRoot fat32 _ _) apart created).kept.outside

/-- The calls on a created file write their bytes behind each other exactly when each call
with bytes begins at the start of the file or within a cluster, and the size fits in its
field.  A root directory that is a chain is assumed to lie outside of the table. -/
theorem writesAll_iff {d₀ d₁ : Driver} {rounds rounds' : Nat} {path : List UInt8}
    {fp₀ fp₁ : FatFile} {buffers : List (List UInt8)} (ready : Ready d₀)
    (created : fatFcreate rounds path fp₀ d₀ = some ((0, fp₁), d₁))
    (outside : d₀.m.type = .fat32 → d₀.m.Outside fp₁.slot.lba)
    (fits : buffers.flatten.length ≤ (d₀.m.freeClusters d₁.disk).card * d₀.m.clusSize)
    (enough : ∀ bytes ∈ buffers, bytes.length < rounds') :
    WritesAll rounds' buffers fp₁ d₁ ↔
      buffers.flatten.length < 2 ^ 32 ∧ CutsInside d₀.m.clusSize 0 buffers := by
  obtain ⟨growing, held⟩ := fatFcreate_growing ready created outside
  by_cases small : buffers.flatten.length < 2 ^ 32
  · have valid : d₁.m.valid = true := by
      rw [held.steady.here]
      exact ready.sane.valid
    rw [writesAll_cleared held.inUse valid, writesAll_iff_growing growing fits enough small]
    exact (and_iff_right small).symm
  · refine iff_of_false (fun writes => small ?_) fun cuts => small cuts.1
    exact length_lt_of_writesAll ready.sane held writes

theorem create_run : (fatFcreate 20 [66] FatFile.unused smallDriver).map
    (fun result => (result.1.1, (smallMount.freeClusters result.2.disk).card)) =
      some (0, 33) := by
  decide +kernel

/-- Clusters of 512 bytes, and calls that end within them. -/
theorem writesAll_iff_inside : ∃ fp d,
    fatFcreate 20 [66] FatFile.unused smallDriver = some ((0, fp), d) ∧
    WritesAll 1000 [List.replicate 500 1, List.replicate 600 2, [3]] fp d := by
  obtain ⟨⟨⟨code, fp⟩, d⟩, created, ends⟩ := Option.map_eq_some_iff.mp create_run
  obtain ⟨rfl, spare⟩ := Prod.mk.inj ends
  refine ⟨fp, d, created, (writesAll_iff smallDriver_ready created nofun ?_ ?_).mpr ?_⟩
  · change _ ≤ (smallMount.freeClusters d.disk).card * _
    rw [spare]
    decide +kernel
  · decide +kernel
  · decide +kernel

/-- The second call begins on a boundary and overwrites the byte at the start of the
cluster before it. -/
theorem write_after_boundary_overwrites : ∃ fp d,
    fatFcreate 20 [66] FatFile.unused smallDriver = some ((0, fp), d) ∧
    513 ≤ (smallMount.freeClusters d.disk).card * smallMount.clusSize ∧
    ¬ WritesAll 1000 [List.replicate 512 1, [2]] fp d := by
  obtain ⟨⟨⟨code, fp⟩, d⟩, created, ends⟩ := Option.map_eq_some_iff.mp create_run
  obtain ⟨rfl, spare⟩ := Prod.mk.inj ends
  obtain ⟨growing, held⟩ := fatFcreate_growing smallDriver_ready created nofun
  have valid : d.m.valid = true := by
    rw [held.steady.here]
    rfl
  refine ⟨fp, d, created, ?_, ?_⟩
  · rw [spare]
    decide
  · rw [writesAll_cleared held.inUse valid, writesAll_iff_growing growing ?_ ?_ ?_]
    · decide +kernel
    · change _ ≤ (smallMount.freeClusters d.disk).card * _
      rw [spare]
      decide +kernel
    · decide +kernel
    · decide +kernel

end Calls

end Ncd15.Fat
