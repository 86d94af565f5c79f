import Ncd15.Fat.AllocatorLaw

/-!
# The geometry of a mounted volume

`fat_mount` checks the sector size, and that two fields are not zero.  What the other
operations take for granted about the numbers it derives is decided by the fields of the
boot sector alone.
-/

namespace Ncd15.Fat

open Ncd15.Library

/-- The fields of a boot sector that describe the volume. -/
structure Header where
  secPerClus : Nat
  rsvdSec : Nat
  numFats : Nat
  rootEntCount : Nat
  totalSec : Nat
  fatSec : Nat
  rootClus : Nat
  deriving DecidableEq

/-- The fields of a boot sector.  Where the 16-bit table size is zero, that size and the
root directory are in the fields of a FAT32 volume. -/
def header (bpb : Sector) : Header where
  secPerClus := (bpb.get 13).toNat
  rsvdSec := bpb.loadLe 14 2
  numFats := (bpb.get 16).toNat
  rootEntCount := bpb.loadLe 17 2
  totalSec := if bpb.loadLe 19 2 ≠ 0 then bpb.loadLe 19 2 else bpb.loadLe 32 4
  fatSec := if bpb.loadLe 22 2 = 0 then bpb.loadLe 36 4 else bpb.loadLe 22 2
  rootClus := if bpb.loadLe 22 2 = 0 then bpb.loadLe 44 4 else 0

/-- The bytes of a table with entries for so many clusters. -/
def tableBytes (clusters : Nat) : Nat :=
  if clusters < 4085 then clusters + 1 + (clusters + 1) / 2 + 2
  else if clusters < 65525 then (clusters + 2) * 2
  else (clusters + 2) * 4

namespace Header

/-- The reserved sectors, the copies of the table and the root directory. -/
def dataStart (h : Header) : Nat :=
  h.rsvdSec + h.numFats * h.fatSec + (h.rootEntCount * 32 + 511) / 512

/-- The whole clusters behind them. -/
def clusters (h : Header) : Nat := (h.totalSec - h.dataStart) / h.secPerClus

/-- Fields that fit together. -/
structure Sound (h : Header) : Prop where
  power : ∃ k, h.secPerClus = 2 ^ k
  inside : h.dataStart ≤ h.totalSec
  covered : h.clusters = 0 ∨ tableBytes h.clusters ≤ h.fatSec * 512
  root : 65525 ≤ h.clusters → 2 ≤ h.rootClus ∧ h.rootClus < h.clusters + 2

end Header

/-- What the operations on a mounted volume take for granted. -/
structure Mount.Usable (m : Mount) : Prop where
  power : ∃ k, m.secPerClus = 2 ^ k
  dataStart : m.firstDataSec =
    m.rsvdSec + m.numFats * m.fatSec + (m.rootEntCount * 32 + 511) / 512
  inside : m.firstDataSec ≤ m.totalSec
  clusters : ∀ c, m.IsCluster c →
    m.firstDataSec ≤ m.clusToLba c ∧ m.clusToLba c + m.secPerClus ≤ m.totalSec
  covered : ∀ c, m.IsCluster c → m.rawOff c + m.entryWidth ≤ m.fatSec * 512
  root : m.type = .fat32 → m.IsCluster m.rootClus

section Mounted

/-- The mount data that `fat_mount` computes from the fields, in 32 bits. -/
structure Header.Gives (h : Header) (m : Mount) : Prop where
  secPerClus : m.secPerClus = h.secPerClus
  rsvdSec : m.rsvdSec = h.rsvdSec
  numFats : m.numFats = h.numFats
  rootEntCount : m.rootEntCount = h.rootEntCount
  totalSec : m.totalSec = h.totalSec
  fatSec : m.fatSec = h.fatSec
  rootClus : m.rootClus = h.rootClus
  firstDataSec : m.firstDataSec =
    u32 (h.rsvdSec + u32 (h.numFats * h.fatSec) + (h.rootEntCount * 32 + 511) / 512)
  clusterCount : m.clusterCount = u32 (h.totalSec + 2 ^ 32 - m.firstDataSec) / h.secPerClus
  totalSec_lt : h.totalSec < 2 ^ 32

theorem bootError_bytesPerSec {m : Mount} (accepted : m.bootError = none) :
    m.bytesPerSec = 512 := by
  by_contra other
  rw [Mount.bootError, if_pos other] at accepted
  simp at accepted

/-- The copied fields of the mount data are those of the boot sector. -/
theorem extended_copyBoot (m : Mount) (bpb : Sector) :
    (m.copyBoot bpb).extended bpb =
      { m with
        bytesPerSec := bpb.loadLe 11 2
        secPerClus := (header bpb).secPerClus
        rsvdSec := (header bpb).rsvdSec
        numFats := (header bpb).numFats
        rootEntCount := (header bpb).rootEntCount
        totalSec := (header bpb).totalSec
        fatSec := (header bpb).fatSec
        rootClus := (header bpb).rootClus } := by
  by_cases wide : bpb.loadLe 22 2 = 0
  · have noSize : (m.copyBoot bpb).fatSec = 0 := wide
    rw [Mount.extended, if_pos noSize]
    simp only [Mount.copyBoot, header, if_pos wide]
  · have size : ¬ (m.copyBoot bpb).fatSec = 0 := wide
    rw [Mount.extended, if_neg size]
    simp only [Mount.copyBoot, header, if_neg wide]

theorem header_totalSec_lt (bpb : Sector) : (header bpb).totalSec < 2 ^ 32 := by
  have short := bpb.loadLe_lt 19 2
  have long := bpb.loadLe_lt 32 4
  unfold header
  dsimp only
  split <;> omega

theorem fatMount_gives {d d' : Driver} (run : fatMount d = some (0, d')) :
    (header (d.disk 0)).Gives d'.m := by
  obtain ⟨m, accepted, mounted⟩ := fatMount_mounts run
  have size : (d.disk 0).loadLe 11 2 = 512 := bootError_bytesPerSec accepted
  rw [extended_copyBoot, size] at mounted
  rw [mounted]
  exact ⟨rfl, rfl, rfl, rfl, rfl, rfl, rfl, rfl, rfl, header_totalSec_lt _⟩

variable {h : Header} {m : Mount}

/-- Nothing wraps when the data starts inside the volume. -/
theorem Header.Gives.exact (gives : h.Gives m) (inside : h.dataStart ≤ h.totalSec) :
    m.firstDataSec = h.dataStart ∧ m.clusterCount = h.clusters := by
  have small := gives.totalSec_lt
  unfold Header.dataStart at inside
  have product : u32 (h.numFats * h.fatSec) = h.numFats * h.fatSec := u32_of_lt (by omega)
  have start : m.firstDataSec = h.dataStart := by
    rw [gives.firstDataSec, product, Header.dataStart]
    exact u32_of_lt (by omega)
  refine ⟨start, ?_⟩
  rw [gives.clusterCount, start, Header.clusters, Header.dataStart]
  congr 1
  unfold u32
  omega

/-- The entries of the clusters end with that of the last one. -/
theorem Mount.Accepted.rawOff_le (accepted : m.Accepted) {c : Nat} (isCluster : m.IsCluster c) :
    m.rawOff c + m.entryWidth ≤ tableBytes m.clusterCount ∧
      (c = m.clusterCount + 1 → m.rawOff c + m.entryWidth = tableBytes m.clusterCount) := by
  have type := accepted.type_eq
  have range := isCluster.2
  by_cases few : m.clusterCount < 4085
  · rw [if_pos few] at type
    simp only [Mount.rawOff, Mount.entryWidth, tableBytes, type, if_pos few]
    constructor
    · omega
    · rintro rfl
      rfl
  by_cases some : m.clusterCount < 65525
  · rw [if_neg few, if_pos some] at type
    simp only [Mount.rawOff, Mount.entryWidth, tableBytes, type, if_neg few, if_pos some]
    omega
  · rw [if_neg few, if_neg some] at type
    simp only [Mount.rawOff, Mount.entryWidth, tableBytes, type, if_neg few, if_neg some]
    omega

theorem Mount.Accepted.fat32_iff (accepted : m.Accepted) :
    m.type = .fat32 ↔ 65525 ≤ m.clusterCount := by
  rw [accepted.type_eq]
  split
  · simp
    omega
  split
  · simp
    omega
  · simp
    omega

theorem usable_of_sound (gives : h.Gives m) (accepted : m.Accepted) (sound : h.Sound) :
    m.Usable := by
  obtain ⟨start, count⟩ := gives.exact sound.inside
  have inside := sound.inside
  have small := gives.totalSec_lt
  have whole : h.clusters * h.secPerClus ≤ h.totalSec - h.dataStart := Nat.div_mul_le_self _ _
  refine ⟨?_, ?_, ?_, fun c isCluster => ?_, fun c isCluster => ?_, fun type => ?_⟩
  · rw [gives.secPerClus]
    exact sound.power
  · rw [start, gives.rsvdSec, gives.numFats, gives.fatSec, gives.rootEntCount]
    rfl
  · rw [start, gives.totalSec]
    exact inside
  · have range := isCluster
    rw [Mount.IsCluster, count] at range
    have before : (c - 2 + 1) * h.secPerClus ≤ h.clusters * h.secPerClus :=
      Nat.mul_le_mul_right _ (by omega)
    rw [Nat.add_mul, Nat.one_mul] at before
    have first : m.clusToLba c = h.dataStart + (c - 2) * h.secPerClus := by
      rw [Mount.clusToLba, if_neg (by omega), start, gives.secPerClus]
      exact u32_of_lt (by omega)
    rw [first, start, gives.secPerClus, gives.totalSec]
    omega
  · obtain ⟨most, -⟩ := accepted.rawOff_le isCluster
    have range := isCluster
    rw [Mount.IsCluster, count] at range
    have covered := sound.covered.resolve_left (by omega)
    rw [gives.fatSec]
    rw [count] at most
    omega
  · rw [Mount.IsCluster, count, gives.rootClus]
    exact sound.root (by rw [← count]; exact accepted.fat32_iff.mp type)

theorem sound_of_usable (gives : h.Gives m) (accepted : m.Accepted) (usable : m.Usable) :
    h.Sound := by
  have inside : h.dataStart ≤ h.totalSec := by
    have start := usable.dataStart
    rw [gives.rsvdSec, gives.numFats, gives.fatSec, gives.rootEntCount] at start
    have inside := usable.inside
    rw [start, gives.totalSec] at inside
    exact inside
  obtain ⟨-, count⟩ := gives.exact inside
  refine ⟨?_, inside, ?_, fun many => ?_⟩
  · rw [← gives.secPerClus]
    exact usable.power
  · rcases Nat.eq_zero_or_pos h.clusters with none | some
    · exact Or.inl none
    · right
      have last : m.IsCluster (m.clusterCount + 1) := ⟨by omega, Nat.lt_succ_self _⟩
      have covered := usable.covered _ last
      rw [(accepted.rawOff_le last).2 rfl, gives.fatSec, count] at covered
      exact covered
  · have isCluster := usable.root (accepted.fat32_iff.mpr (by rw [count]; exact many))
    rw [Mount.IsCluster, count, gives.rootClus] at isCluster
    exact isCluster

/-- What `fat_mount` accepts is usable exactly when the fields fit together, which it does
not check. -/
theorem usable_iff {d d' : Driver} (run : fatMount d = some (0, d')) :
    d'.m.Usable ↔ (header (d.disk 0)).Sound := by
  have gives := fatMount_gives run
  have accepted := fatMount_accepted run
  exact ⟨sound_of_usable gives accepted, usable_of_sound gives accepted⟩

theorem usable_iff_floppy : ∃ d', fatMount (Driver.initial (floppy 2) 400) = some (0, d') ∧
    d'.m.Usable := by
  have mounts : ((fatMount (Driver.initial (floppy 2) 400)).map Prod.fst) = some 0 := by
    decide +kernel
  obtain ⟨⟨code, d'⟩, run, zero⟩ := Option.map_eq_some_iff.mp mounts
  obtain rfl : code = 0 := zero
  refine ⟨d', run, (usable_iff run).mpr ⟨⟨0, ?_⟩, ?_, ?_, ?_⟩⟩ <;> decide +kernel

/-- A boot sector with three sectors to a cluster and a volume of none. -/
def crooked : Nat → Sector
  | 0 => ((((((Buffer.zero.blit 11 [0x00, 0x02]).blit 13 [3]).blit 14 [1, 0]).blit 16
      [1]).blit 17 [16, 0]).blit 22 [1, 0]).blit 510 [0x55, 0xAA]
  | _ => Buffer.zero

/-- It is accepted as a FAT32 volume of `0x55555554` clusters, with none of what the
operations take for granted. -/
theorem crooked_accepted : ∃ d', fatMount (Driver.initial crooked 400) = some (0, d') ∧
    (¬ ∃ k, d'.m.secPerClus = 2 ^ k) ∧ d'.m.totalSec < d'.m.firstDataSec ∧
    d'.m.IsCluster 2 ∧ d'.m.totalSec < d'.m.clusToLba 2 + d'.m.secPerClus ∧
    d'.m.IsCluster 1000 ∧ d'.m.fatSec * 512 < d'.m.rawOff 1000 + d'.m.entryWidth ∧
    d'.m.type = .fat32 ∧ ¬ d'.m.IsCluster d'.m.rootClus ∧ ¬ d'.m.Usable := by
  have mounts : ((fatMount (Driver.initial crooked 400)).map Prod.fst) = some 0 := by
    decide +kernel
  obtain ⟨⟨code, d'⟩, run, zero⟩ := Option.map_eq_some_iff.mp mounts
  obtain rfl : code = 0 := zero
  have fields : header (crooked 0) = ⟨3, 1, 1, 16, 0, 1, 0⟩ := by decide +kernel
  have gives : Header.Gives ⟨3, 1, 1, 16, 0, 1, 0⟩ d'.m := fields ▸ fatMount_gives run
  have sectors : d'.m.secPerClus = 3 := gives.secPerClus
  have total : d'.m.totalSec = 0 := gives.totalSec
  have size : d'.m.fatSec = 1 := gives.fatSec
  have root : d'.m.rootClus = 0 := gives.rootClus
  have start : d'.m.firstDataSec = 3 := gives.firstDataSec
  have count : d'.m.clusterCount = 0x55555554 := by
    rw [gives.clusterCount, start]
    decide
  have kind : d'.m.type = .fat32 := by
    rw [(fatMount_accepted run).fat32_iff, count]
    decide
  have odd : ¬ ∃ k, d'.m.secPerClus = 2 ^ k := by
    rintro ⟨k, power⟩
    rw [sectors] at power
    rcases k with _ | _ | k
    · simp at power
    · simp at power
    · rw [Nat.pow_add] at power
      omega
  have second : d'.m.clusToLba 2 = 3 := by
    rw [Mount.clusToLba, if_neg (by decide), start, sectors]
    rfl
  refine ⟨d', run, odd, by omega, ⟨le_rfl, by omega⟩, by omega, ⟨by decide, by omega⟩, ?_, kind,
    ?_, fun usable => odd usable.power⟩
  · simp only [Mount.rawOff, Mount.entryWidth, kind, size]
    decide
  · rw [Mount.IsCluster, root]
    omega

end Mounted

end Ncd15.Fat
