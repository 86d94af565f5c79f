import Ncd15.Fat.Allocation

/-!
# The contents of a file

A file is a chain of clusters and a size.  `fat_fseek` walks to a cluster of the
chain, and `fat_fread` delivers the bytes from there on, sector by sector.
-/

namespace Ncd15.Fat

open Ncd15.Library

section Chains

variable {m : Mount} {disk : Nat → Sector} {clusters : List Nat} {k : Nat}

/-- The clusters are linked in this order, and the last one ends the chain. -/
structure Mount.Chain (m : Mount) (disk : Nat → Sector) (clusters : List Nat) : Prop where
  isCluster : ∀ k, k < clusters.length → m.IsCluster (clusters.getD k 0)
  linked : ∀ k, k + 1 < clusters.length →
    m.link disk (clusters.getD k 0) = clusters.getD (k + 1) 0
  last : ∀ k, k + 1 = clusters.length → m.mark ≤ m.link disk (clusters.getD k 0)

theorem Mount.Chain.tail {c : Nat} {rest : List Nat} (chain : m.Chain disk (c :: rest)) :
    m.Chain disk rest where
  isCluster := fun k inside => chain.isCluster (k + 1) (Nat.succ_lt_succ inside)
  linked := fun k inside => chain.linked (k + 1) (Nat.succ_lt_succ inside)
  last := fun k last => chain.last (k + 1) (congrArg Nat.succ last)

theorem Mount.Lays.next_eq {capacity : Nat} (lays : m.Lays capacity)
    (chain : m.Chain disk clusters) (inside : k + 1 < clusters.length) :
    m.next disk (clusters.getD k 0) = clusters.getD (k + 1) 0 := by
  have link := chain.linked k inside
  have small := lays.cluster_lt_mark (chain.isCluster (k + 1) inside)
  rw [next_of_lt (by rwa [link]), link]

theorem Mount.Chain.next_eq {capacity : Nat} (chain : m.Chain disk clusters)
    (sane : m.Sane capacity) (inside : k + 1 < clusters.length) :
    m.next disk (clusters.getD k 0) = clusters.getD (k + 1) 0 :=
  sane.lays.next_eq chain inside

theorem Mount.Chain.next_last (chain : m.Chain disk clusters) (last : k + 1 = clusters.length) :
    m.next disk (clusters.getD k 0) = noClus :=
  next_of_mark (chain.last k last)

theorem Mount.Lays.cluster_ne_noClus {capacity c : Nat} (lays : m.Lays capacity)
    (isCluster : m.IsCluster c) : c ≠ noClus := by
  have small := lays.cluster_lt_mark isCluster
  unfold Mount.mark at small
  unfold noClus
  cases type : m.type <;> simp only [type] at small <;> omega

theorem cluster_ne_noClus {capacity c : Nat} (sane : m.Sane capacity)
    (isCluster : m.IsCluster c) : c ≠ noClus :=
  sane.lays.cluster_ne_noClus isCluster

/-- The byte of a chain at a position, counted from the start of its first cluster. -/
def Mount.byteAt (m : Mount) (disk : Nat → Sector) (clusters : List Nat) (pos : Nat) : UInt8 :=
  (disk (m.dataLba (clusters.getD (pos / 512 / m.secPerClus) 0)
    (pos / 512 % m.secPerClus))).get (pos % 512)

/-- The bytes of a chain from a position on. -/
def Mount.bytesAt (m : Mount) (disk : Nat → Sector) (clusters : List Nat) (pos length : Nat) :
    List UInt8 :=
  (List.range length).map fun i => m.byteAt disk clusters (pos + i)

@[simp] theorem Mount.length_bytesAt (pos length : Nat) :
    (m.bytesAt disk clusters pos length).length = length := by
  simp [Mount.bytesAt]

theorem Mount.bytesAt_add (pos first second : Nat) :
    m.bytesAt disk clusters pos (first + second) =
      m.bytesAt disk clusters pos first ++ m.bytesAt disk clusters (pos + first) second := by
  simp [Mount.bytesAt, List.range_add, Nat.add_assoc, Function.comp_def]

theorem getD_bytesAt (pos length k : Nat) (other : UInt8) :
    (m.bytesAt disk clusters pos length).getD k other =
      if k < length then m.byteAt disk clusters (pos + k) else other := by
  unfold Mount.bytesAt
  split
  · rename_i inside
    simp [List.getD, inside]
  · rename_i outside
    simp [List.getD, outside]

/-- Bytes within one sector. -/
theorem Mount.bytesAt_sector {pos length : Nat} (inSector : pos % 512 + length ≤ 512) :
    m.bytesAt disk clusters pos length =
      (disk (m.dataLba (clusters.getD (pos / 512 / m.secPerClus) 0)
        (pos / 512 % m.secPerClus))).slice (pos % 512) length := by
  refine List.map_congr_left fun i mem => ?_
  have small := List.mem_range.mp mem
  have sector : (pos + i) / 512 = pos / 512 := by omega
  have offset : (pos + i) % 512 = pos % 512 + i := by omega
  rw [Mount.byteAt, sector, offset]

end Chains

/-- A step that reads the disk: only the buffers change. -/
structure ReadStep (d d' : Driver) : Prop where
  blk : d'.blk = d.blk
  m : d'.m = d.m
  good : Good d'
  secOk : d'.SecOk

namespace ReadStep

variable {d d' d'' : Driver}

theorem refl (good : Good d) (secOk : d.SecOk) : ReadStep d d := ⟨rfl, rfl, good, secOk⟩

theorem trans (first : ReadStep d d') (second : ReadStep d' d'') : ReadStep d d'' :=
  ⟨second.blk.trans first.blk, second.m.trans first.m, second.good, second.secOk⟩

theorem of_cache (step : CacheStep d d') (secOk : d.SecOk) : ReadStep d d' :=
  ⟨step.blk, step.m, step.good, step.secOk secOk⟩

theorem disk (step : ReadStep d d') : d'.disk = d.disk := congrArg BlkDev.sec step.blk

theorem ready (step : ReadStep d d') (ready : Ready d) : Ready d' where
  good := step.good
  sane := by rw [step.blk, step.m]; exact ready.sane

end ReadStep

/-- A file whose clusters hold all of its bytes. -/
structure FileOnDisk (m : Mount) (disk : Nat → Sector) (clusters : List Nat) (size : Nat) :
    Prop where
  chain : m.Chain disk clusters
  fits : size ≤ clusters.length * m.secPerClus * 512
  size_lt : size < 2 ^ 32

section Seek

variable {d : Driver} {clusters : List Nat}

theorem skipClusters_run (ready : Ready d) (chain : d.m.Chain d.disk clusters) {fp : FatFile}
    {first skip : Nat} (here : fp.curClus = clusters.getD first 0)
    (inside : first + skip < clusters.length) :
    ∃ d', skipClusters skip fp d =
        some ((0, { fp with curClus := clusters.getD (first + skip) 0 }), d') ∧
      CacheStep d d' := by
  induction skip generalizing first fp d with
  | zero =>
      refine ⟨d, ?_, CacheStep.refl ready.good⟩
      rw [Nat.add_zero, ← here]
      rfl
  | succ skip ih =>
      have isCluster := chain.isCluster first (by omega)
      obtain ⟨d₁, run₁, step₁⟩ := fatNextClus_run ready.good ready.sane isCluster.2
      have next := chain.next_eq ready.sane (k := first) (by omega)
      have ne := cluster_ne_noClus ready.sane (chain.isCluster (first + 1) (by omega))
      have chain₁ : d₁.m.Chain d₁.disk clusters := by
        rw [step₁.m, step₁.disk]
        exact chain
      have moved : ({ fp with curClus := clusters.getD (first + 1) 0 } : FatFile).curClus =
          clusters.getD (first + 1) 0 := rfl
      obtain ⟨d₂, run₂, step₂⟩ := ih (step₁.ready ready) chain₁ moved (by omega)
      refine ⟨d₂, ?_, step₁.trans step₂⟩
      rw [skipClusters, here, Prog.bind_eq_of_run run₁, next, if_neg ne, run₂]
      rw [Nat.add_right_comm, Nat.add_assoc]

/-- `fat_fseek` to a position before the end of the chain. -/
theorem fatFseek_run (ready : Ready d) (chain : d.m.Chain d.disk clusters) {fp : FatFile}
    (inUse : fp.inUse = true) (first : fp.firstClus = clusters.getD 0 0) {pos : Nat}
    (inFile : pos ≤ fp.fileSize) (inside : pos / 512 / d.m.secPerClus < clusters.length) :
    ∃ d', fatFseek fp pos d =
        some ((0, { fp with
          curPos := pos
          curClus := clusters.getD (pos / 512 / d.m.secPerClus) 0 }), d') ∧
      CacheStep d d' := by
  have skip : pos / d.m.clusSize = pos / 512 / d.m.secPerClus := by
    rw [clusSize_eq ready.sane, Nat.mul_comm, Nat.div_div_eq_div_mul]
  have start : ({ fp with curPos := pos, curClus := fp.firstClus } : FatFile).curClus =
      clusters.getD 0 0 := first
  rw [← skip] at inside
  obtain ⟨d', run, step⟩ := skipClusters_run ready chain start
    (show 0 + pos / d.m.clusSize < clusters.length by rwa [Nat.zero_add])
  refine ⟨d', ?_, step⟩
  have opened : ¬ (!fp.inUse) = true := by simp [inUse]
  rw [fatFseek, Prog.bind_eq_of_run (mount_run d), if_neg opened, Nat.min_eq_left inFile, run,
    Nat.zero_add, skip]

end Seek

section Positions

variable {m : Mount} {capacity : Nat}

theorem inCluster_div (sane : m.Sane capacity) (pos : Nat) :
    inCluster m.clusSize pos / 512 = pos / 512 % m.secPerClus := by
  rw [inCluster_eq sane, Nat.mod_mul_left_div_self]

theorem inCluster_mod (sane : m.Sane capacity) (pos : Nat) :
    inCluster m.clusSize pos % 512 = pos % 512 := by
  rw [inCluster_eq sane]
  exact Nat.mod_mod_of_dvd pos (Nat.dvd_mul_left 512 m.secPerClus)

theorem inCluster_eq_zero (sane : m.Sane capacity) (pos : Nat) :
    inCluster m.clusSize pos = 0 ↔ pos % 512 = 0 ∧ pos / 512 % m.secPerClus = 0 := by
  rw [← inCluster_div sane, ← inCluster_mod sane]
  omega

theorem sector_in_cluster (sane : m.Sane capacity) (pos : Nat) :
    pos / 512 % m.secPerClus < m.secPerClus := Nat.mod_lt _ sane.sectors

/-- The cluster of the sector behind a sector. -/
theorem succ_div_cluster (sane : m.Sane capacity) (sector : Nat) :
    (sector + 1) / m.secPerClus =
      if (sector + 1) % m.secPerClus = 0 then sector / m.secPerClus + 1
      else sector / m.secPerClus := by
  have positive := sane.sectors
  rw [Nat.succ_div]
  by_cases boundary : (sector + 1) % m.secPerClus = 0
  · rw [if_pos boundary, if_pos (Nat.dvd_of_mod_eq_zero boundary)]
  · rw [if_neg boundary, if_neg (mt Nat.mod_eq_zero_of_dvd boundary), Nat.add_zero]

end Positions

section Read

variable {d : Driver} {clusters : List Nat}

theorem readSec_run (good : Good d) (secOk : d.SecOk) {lba : Nat} (has : d.blk.Has lba) :
    ∃ d', readSec lba d = some (some (d.disk lba), d') ∧ ReadStep d d' ∧
      d'.fatBufValid = d.fatBufValid := by
  unfold readSec
  split
  · rename_i hit
    have held := secOk hit.1
    rw [hit.2] at held
    rw [held]
    exact ⟨d, rfl, ReadStep.refl good secOk, rfl⟩
  · exact ⟨_, rfl, ⟨rfl, rfl, ⟨good.1, good.2⟩, fun _ => rfl⟩, rfl⟩

/-- The sector under the position in the shared buffer, as `fat_fread` loads it. -/
theorem loadSector_run (ready : Ready d) (secOk : d.SecOk) {lba : Nat} (has : d.blk.Has lba) :
    ∃ d₁ d', readSec lba { d with fatBufValid := false } = some (some (d.disk lba), d₁) ∧
      editWbuf (fun _ => d.disk lba) d₁ = some ((), d') ∧ ReadStep d d' := by
  have free := ready.invalidated
  obtain ⟨d₁, run, step, invalid⟩ :=
    readSec_run free.1.good (d := { d with fatBufValid := false }) secOk has
  have idle : Idle d₁ := ⟨step.good.1, invalid⟩
  exact ⟨d₁, _, run, rfl, step.blk, step.m, (idle.edited _).good, step.secOk⟩

/-- The handle stands in the cluster of its position. -/
def FatFile.InPlace (fp : FatFile) (m : Mount) (clusters : List Nat) : Prop :=
  fp.curClus = clusters.getD (fp.curPos / 512 / m.secPerClus) 0

/-- The bytes `fat_fread` takes from the sector under its position. -/
def ReadLoop.chunk (s : ReadLoop) (max : Nat) : Nat :=
  min (512 - s.fp.curPos % 512) (max - s.bytes.length)

theorem ReadLoop.chunk_le (s : ReadLoop) (max : Nat) :
    s.fp.curPos % 512 + s.chunk max ≤ 512 ∧ s.chunk max ≤ max - s.bytes.length := by
  have least : s.chunk max ≤ 512 - s.fp.curPos % 512 := Nat.min_le_left _ _
  exact ⟨by omega, Nat.min_le_right _ _⟩

theorem ReadLoop.slice_chunk (s : ReadLoop) (max : Nat) (d : Driver) {clusters : List Nat}
    (inPlace : s.fp.curClus = clusters.getD (s.fp.curPos / 512 / d.m.secPerClus) 0) :
    (d.disk (d.m.dataLba s.fp.curClus (s.fp.curPos / 512 % d.m.secPerClus))).slice
        (s.fp.curPos % 512) (s.chunk max) =
      d.m.bytesAt d.disk clusters s.fp.curPos (s.chunk max) := by
  rw [Mount.bytesAt_sector (s.chunk_le max).1, inPlace]

/-- The loop after the bytes of one sector of the cluster of the handle. -/
def ReadLoop.moved (s : ReadLoop) (m : Mount) (disk : Nat → Sector) (max : Nat) : ReadLoop :=
  { fp := { s.fp with curPos := s.fp.curPos + s.chunk max }
    bytes := s.bytes ++
      (disk (m.dataLba s.fp.curClus (s.fp.curPos / 512 % m.secPerClus))).slice
        (s.fp.curPos % 512) (s.chunk max) }

/-- The result of a round from a cluster: the link is followed at a boundary with bytes
left. -/
def ReadLoop.outcome (s : ReadLoop) (m : Mount) (disk : Nat → Sector) (max : Nat) :
    ReadLoop ⊕ (Int × ReadLoop) :=
  let moved := s.moved m disk max
  let nxt := m.next disk s.fp.curClus
  if moved.fp.curPos % (m.secPerClus * 512) = 0 ∧ moved.bytes.length < max then
    if nxt = noClus then .inr (moved.bytes.length, moved)
    else .inl { moved with fp := { moved.fp with curClus := nxt } }
  else .inl moved

theorem freadRound_spec (ready : Ready d) (secOk : d.SecOk) {s : ReadLoop} {max : Nat}
    (more : s.bytes.length < max) (pos_lt : s.fp.curPos + (max - s.bytes.length) < 2 ^ 32)
    (isCluster : d.m.IsCluster s.fp.curClus) :
    ∃ d', freadRound d.m max s d = some (s.outcome d.m d.disk max, d') ∧ ReadStep d d' := by
  have sane := ready.sane
  have lba : u32 (d.m.clusToLba s.fp.curClus + inCluster d.m.clusSize s.fp.curPos / 512) =
      d.m.dataLba s.fp.curClus (s.fp.curPos / 512 % d.m.secPerClus) := by
    rw [inCluster_div sane, clusToLba_add sane isCluster (sector_in_cluster sane _)]
  obtain ⟨inSector, atMost⟩ := s.chunk_le max
  have pos : u32 (s.fp.curPos + s.chunk max) = s.fp.curPos + s.chunk max :=
    u32_of_lt (by omega)
  obtain ⟨d₀, d₁, run₀, run₁, step₁⟩ := loadSector_run ready secOk
    (has_dataLba sane isCluster (sector_in_cluster sane s.fp.curPos))
  have chunk : min (512 - s.fp.curPos % 512) (max - s.bytes.length) = s.chunk max := rfl
  have atEnd := inCluster_eq sane (s.fp.curPos + s.chunk max)
  rw [freadRound, if_neg (Nat.not_le.mpr more), Prog.bind_eq_of_run (invalidate_run d), lba,
    Prog.bind_eq_of_run run₀]
  simp only [inCluster_mod sane, chunk, pos, atEnd]
  rw [Prog.bind_eq_of_run run₁]
  unfold ReadLoop.outcome
  dsimp only [ReadLoop.moved]
  by_cases crosses : (s.fp.curPos + s.chunk max) % (d.m.secPerClus * 512) = 0 ∧
      (s.bytes ++ (d.disk (d.m.dataLba s.fp.curClus (s.fp.curPos / 512 % d.m.secPerClus))).slice
        (s.fp.curPos % 512) (s.chunk max)).length < max
  · obtain ⟨d₂, run₂, step₂⟩ := fatNextClus_run (step₁.ready ready).good (step₁.ready ready).sane
      (by rw [step₁.m]; exact isCluster.2)
    rw [step₁.m, step₁.disk] at run₂
    rw [if_pos crosses, if_pos crosses, Prog.bind_eq_of_run run₂]
    refine ⟨d₂, ?_, step₁.trans (.of_cache step₂ step₁.secOk)⟩
    split <;> rfl
  · rw [if_neg crosses, if_neg crosses]
    exact ⟨d₁, rfl, step₁⟩

/-- A read to be continued: the bytes still wanted lie in the chain. -/
structure ReadLoop.Within (s : ReadLoop) (m : Mount) (clusters : List Nat) (max : Nat) :
    Prop where
  pos_lt : s.fp.curPos + (max - s.bytes.length) < 2 ^ 32
  inside : s.fp.curPos + (max - s.bytes.length) ≤ clusters.length * m.secPerClus * 512
  inPlace : s.bytes.length < max → s.fp.InPlace m clusters

theorem index_lt {m : Mount} {capacity pos count : Nat} (sane : m.Sane capacity)
    (inside : pos < count * m.secPerClus * 512) : pos / 512 / m.secPerClus < count := by
  rw [Nat.div_lt_iff_lt_mul sane.sectors, Nat.div_lt_iff_lt_mul (by decide)]
  exact inside

/-- The loop after the bytes of one sector. -/
def ReadLoop.after (s : ReadLoop) (m : Mount) (disk : Nat → Sector) (clusters : List Nat)
    (max clus : Nat) : ReadLoop :=
  { fp := { s.fp with curPos := s.fp.curPos + s.chunk max, curClus := clus }
    bytes := s.bytes ++ m.bytesAt disk clusters s.fp.curPos (s.chunk max) }

theorem freadRound_run (ready : Ready d) (secOk : d.SecOk) (chain : d.m.Chain d.disk clusters)
    {s : ReadLoop} {max : Nat} (more : s.bytes.length < max)
    (within : s.Within d.m clusters max) :
    ∃ d' clus, freadRound d.m max s d = some (.inl (s.after d.m d.disk clusters max clus), d') ∧
      ReadStep d d' ∧
      (s.bytes.length + s.chunk max < max →
        (s.after d.m d.disk clusters max clus).fp.InPlace d.m clusters) ∧
      (¬ s.bytes.length + s.chunk max < max → clus = s.fp.curClus) := by
  have sane := ready.sane
  have fits := within.inside
  have inFile : s.fp.curPos < clusters.length * d.m.secPerClus * 512 := by omega
  have here := index_lt sane inFile
  have isCluster := chain.isCluster _ here
  have inPlace : s.fp.curClus = clusters.getD (s.fp.curPos / 512 / d.m.secPerClus) 0 :=
    within.inPlace more
  obtain ⟨inSector, atMost⟩ := s.chunk_le max
  obtain ⟨d', run, step⟩ :=
    freadRound_spec ready secOk more within.pos_lt (inPlace ▸ isCluster)
  have bytes := s.slice_chunk max d inPlace
  rw [run]
  unfold ReadLoop.outcome
  dsimp only [ReadLoop.moved]
  rw [bytes, List.length_append, Mount.length_bytesAt]
  by_cases last : s.bytes.length + s.chunk max < max
  · have whole : s.chunk max = 512 - s.fp.curPos % 512 := by
      unfold ReadLoop.chunk at last ⊢
      omega
    have sector : (s.fp.curPos + s.chunk max) / 512 = s.fp.curPos / 512 + 1 := by omega
    have offset : (s.fp.curPos + s.chunk max) % 512 = 0 := by omega
    have cluster := succ_div_cluster sane (s.fp.curPos / 512)
    have atEnd := inCluster_eq_zero sane (s.fp.curPos + s.chunk max)
    rw [inCluster_eq sane, sector] at atEnd
    by_cases boundary : (s.fp.curPos / 512 + 1) % d.m.secPerClus = 0
    · rw [if_pos boundary] at cluster
      have next : s.fp.curPos / 512 / d.m.secPerClus + 1 < clusters.length := by
        rw [← cluster, ← sector]
        exact index_lt sane (by omega)
      rw [if_pos ⟨atEnd.mpr ⟨offset, boundary⟩, last⟩, inPlace, chain.next_eq sane next,
        if_neg (cluster_ne_noClus sane (chain.isCluster _ next))]
      refine ⟨d', _, rfl, step, fun _ => ?_, fun no => absurd last no⟩
      rw [FatFile.InPlace, ReadLoop.after, sector, cluster]
    · rw [if_neg boundary] at cluster
      rw [if_neg fun crosses => boundary (atEnd.mp crosses.1).2]
      refine ⟨d', s.fp.curClus, rfl, step, fun _ => ?_, fun no => absurd last no⟩
      rw [FatFile.InPlace, ReadLoop.after, sector, cluster]
      exact inPlace
  · rw [if_neg fun crosses => last crosses.2]
    exact ⟨d', s.fp.curClus, rfl, step, fun yes => absurd yes last, fun _ => rfl⟩

theorem ReadLoop.chunk_pos {s : ReadLoop} {max : Nat} (more : s.bytes.length < max) :
    0 < s.chunk max := by
  unfold ReadLoop.chunk
  omega

theorem ReadLoop.Within.after {m : Mount} {disk : Nat → Sector} {s : ReadLoop} {max clus : Nat}
    (within : s.Within m clusters max)
    (inPlace : s.bytes.length + s.chunk max < max →
      (s.after m disk clusters max clus).fp.InPlace m clusters) :
    (s.after m disk clusters max clus).Within m clusters max := by
  have bound := within.pos_lt
  have fits := within.inside
  have atMost : s.chunk max ≤ max - s.bytes.length := Nat.min_le_right _ _
  refine ⟨?_, ?_, fun more => inPlace ?_⟩
  · simp only [ReadLoop.after, List.length_append, Mount.length_bytesAt]
    omega
  · simp only [ReadLoop.after, List.length_append, Mount.length_bytesAt]
    omega
  · simpa [ReadLoop.after] using more

/-- The loop of `fat_fread` delivers the bytes from its position on.  Behind the last
one the handle stands in the cluster of that byte. -/
theorem freadLoop_run (rounds : Nat) (ready : Ready d) (secOk : d.SecOk)
    (chain : d.m.Chain d.disk clusters) {s : ReadLoop} {max n : Nat}
    (wanted : s.bytes.length + n = max) (within : s.Within d.m clusters max)
    (enough : n < rounds) :
    ∃ d' clus, Prog.loop (freadRound d.m max) rounds s d =
        some (((max : Int), ({
          fp := { s.fp with curPos := s.fp.curPos + n, curClus := clus }
          bytes := s.bytes ++ d.m.bytesAt d.disk clusters s.fp.curPos n } : ReadLoop)), d') ∧
      ReadStep d d' ∧
      clus = (if n = 0 then s.fp.curClus
        else clusters.getD ((s.fp.curPos + n - 1) / 512 / d.m.secPerClus) 0) := by
  induction rounds generalizing s n d with
  | zero => omega
  | succ rounds ih =>
      by_cases done : n = 0
      · subst done
        have result : freadRound d.m max s d = some (.inr (max, s), d) := by
          rw [freadRound, if_pos (by omega)]
          rw [Nat.add_zero] at wanted
          rw [wanted]
          rfl
        refine ⟨d, s.fp.curClus, ?_, ReadStep.refl ready.good secOk, rfl⟩
        rw [Prog.loop_inr result]
        simp [Mount.bytesAt]
      · have more : s.bytes.length < max := by omega
        obtain ⟨d₁, clus₁, run₁, step₁, next₁, last₁⟩ :=
          freadRound_run ready secOk chain more within
        have positive := ReadLoop.chunk_pos more
        have atMost : s.chunk max ≤ max - s.bytes.length := Nat.min_le_right _ _
        have inSector : s.fp.curPos % 512 + s.chunk max ≤ 512 := by
          have least : s.chunk max ≤ 512 - s.fp.curPos % 512 := Nat.min_le_left _ _
          omega
        have within₁ : (s.after d.m d.disk clusters max clus₁).Within d₁.m clusters max := by
          rw [step₁.m]
          exact within.after next₁
        have chain₁ : d₁.m.Chain d₁.disk clusters := by
          rw [step₁.m, step₁.disk]
          exact chain
        have wanted₁ : (s.after d.m d.disk clusters max clus₁).bytes.length +
            (n - s.chunk max) = max := by
          simp only [ReadLoop.after, List.length_append, Mount.length_bytesAt]
          omega
        obtain ⟨d₂, clus₂, run₂, step₂, last₂⟩ :=
          ih (step₁.ready ready) step₁.secOk chain₁ wanted₁ within₁ (by omega)
        rw [step₁.m, step₁.disk] at run₂
        rw [step₁.m] at last₂
        have total : s.chunk max + (n - s.chunk max) = n := by omega
        refine ⟨d₂, clus₂, ?_, step₁.trans step₂, ?_⟩
        · rw [Prog.loop_inl run₁, run₂]
          simp only [ReadLoop.after, List.append_assoc, ← Mount.bytesAt_add, Nat.add_assoc, total]
        · rw [if_neg done, last₂]
          by_cases single : n - s.chunk max = 0
          · have same : (s.fp.curPos + n - 1) / 512 = s.fp.curPos / 512 := by omega
            rw [if_pos single, same, last₁ (by omega)]
            exact within.inPlace more
          · rw [if_neg single, ReadLoop.after, Nat.add_assoc, total]

/-- `fat_fread` of a handle that stands in its place, with the file's clusters behind
it. -/
theorem fatFread_run {rounds : Nat} (ready : Ready d) (secOk : d.SecOk)
    (chain : d.m.Chain d.disk clusters) {fp : FatFile} {max : Nat} (inUse : fp.inUse = true)
    (before : fp.curPos < fp.fileSize) (size_lt : fp.fileSize < 2 ^ 32)
    (fits : fp.fileSize ≤ clusters.length * d.m.secPerClus * 512)
    (inPlace : fp.InPlace d.m clusters) (enough : max < rounds) :
    ∃ d' clus, fatFread rounds fp max d =
        some ((((min max (fp.fileSize - fp.curPos) : Nat) : Int),
          d.m.bytesAt d.disk clusters fp.curPos (min max (fp.fileSize - fp.curPos)),
          { fp with
            curPos := fp.curPos + min max (fp.fileSize - fp.curPos), curClus := clus }), d') ∧
      ReadStep d d' := by
  have opened : ¬ (!fp.inUse) = true := by simp [inUse]
  have inside : ¬ fp.fileSize ≤ fp.curPos := Nat.not_le.mpr before
  have start : (ReadLoop.mk fp []).Within d.m clusters (min max (fp.fileSize - fp.curPos)) :=
    ⟨by simp only [List.length_nil]; omega, by simp only [List.length_nil]; omega,
      fun _ => inPlace⟩
  obtain ⟨d', clus, run, step, -⟩ := freadLoop_run rounds ready secOk chain
    (Nat.zero_add (min max (fp.fileSize - fp.curPos))) start (by omega)
  refine ⟨d', clus, ?_, step⟩
  rw [fatFread, Prog.bind_eq_of_run (mount_run d), if_neg opened, if_neg inside,
    Prog.bind_eq_of_run run]
  rfl

/-- A handle moved within its file. -/
structure SameFile (fp fp' : FatFile) : Prop where
  inUse : fp'.inUse = fp.inUse
  firstClus : fp'.firstClus = fp.firstClus
  fileSize : fp'.fileSize = fp.fileSize
  slot : fp'.slot = fp.slot
  attr : fp'.attr = fp.attr

theorem SameFile.trans {fp fp' fp'' : FatFile} (first : SameFile fp fp')
    (second : SameFile fp' fp'') : SameFile fp fp'' :=
  ⟨second.inUse.trans first.inUse, second.firstClus.trans first.firstClus,
    second.fileSize.trans first.fileSize, second.slot.trans first.slot,
    second.attr.trans first.attr⟩

/-- `fat_fseek` to a position in the file, and `fat_fread` from there on. -/
theorem seekRead_run {rounds : Nat} (ready : Ready d) (secOk : d.SecOk) {fp : FatFile}
    (file : FileOnDisk d.m d.disk clusters fp.fileSize) (inUse : fp.inUse = true)
    (first : fp.firstClus = clusters.getD 0 0) {pos max : Nat} (inside : pos < fp.fileSize)
    (enough : max < rounds) :
    ∃ fp₁ d₁ fp₂ d₂, fatFseek fp pos d = some ((0, fp₁), d₁) ∧
      fatFread rounds fp₁ max d₁ = some ((((min max (fp.fileSize - pos) : Nat) : Int),
        d.m.bytesAt d.disk clusters pos (min max (fp.fileSize - pos)), fp₂), d₂) ∧
      SameFile fp fp₂ ∧ ReadStep d d₂ := by
  have cluster : pos / 512 / d.m.secPerClus < clusters.length :=
    index_lt ready.sane (Nat.lt_of_lt_of_le inside file.fits)
  obtain ⟨d₁, seek, step₁⟩ := fatFseek_run ready file.chain inUse first
    (Nat.le_of_lt inside) cluster
  obtain ⟨fp₁, moved⟩ : ∃ fp₁ : FatFile, fp₁ = { fp with
      curPos := pos, curClus := clusters.getD (pos / 512 / d.m.secPerClus) 0 } := ⟨_, rfl⟩
  rw [← moved] at seek
  have same₁ : SameFile fp fp₁ := by
    rw [moved]
    exact ⟨rfl, rfl, rfl, rfl, rfl⟩
  have at₁ : fp₁.curPos = pos := by rw [moved]
  have inPlace₁ : fp₁.InPlace d₁.m clusters := by rw [FatFile.InPlace, step₁.m, moved]
  have chain₁ : d₁.m.Chain d₁.disk clusters := by
    rw [step₁.m, step₁.disk]
    exact file.chain
  obtain ⟨d₂, clus, read, step₂⟩ := fatFread_run (step₁.ready ready) (step₁.secOk secOk) chain₁
    (same₁.inUse.trans inUse) (by rwa [at₁, same₁.fileSize])
    (by rw [same₁.fileSize]; exact file.size_lt)
    (by rw [same₁.fileSize, step₁.m]; exact file.fits) inPlace₁ enough
  rw [at₁, same₁.fileSize, step₁.m, step₁.disk] at read
  exact ⟨fp₁, d₁, _, d₂, seek, read, same₁.trans ⟨rfl, rfl, same₁.fileSize.symm, rfl, rfl⟩,
    (ReadStep.of_cache step₁ secOk).trans step₂⟩

end Read

end Ncd15.Fat
