import Ncd15.Fat.TableRuns

/-!
# Links and the search for a free cluster

The table as a map from clusters to links.  `fat_alloc_cluster` takes the first
cluster whose link is zero and makes it the end of a chain of its own.
-/

namespace Ncd15.Fat

open Ncd15.Library

section Links

/-- The link of a cluster: its entry in the first copy of the table. -/
def Mount.link (m : Mount) (disk : Nat → Sector) (c : Nat) : Nat :=
  m.entryOf (m.table disk) c

def Mount.IsCluster (m : Mount) (c : Nat) : Prop := 2 ≤ c ∧ c < m.clusterCount + 2

variable {m : Mount} {disk disk' : Nat → Sector} {capacity c c' value : Nat}

theorem entryOf_lt {size : Nat} (t : Buffer size) : m.entryOf t c < m.entryBound := by
  rcases m.width_cases with type | type | narrow
  · rw [entryOf_fat16 type]
    simpa [Mount.entryBound, type] using t.loadLe_lt (c * 2) 2
  · rw [entryOf_fat32 type]
    simp only [Mount.entryBound, type]
    omega
  · rw [entryOf_narrow narrow, entryBound_narrow narrow]
    have low := (t.get (m.rawOff c)).toNat_lt
    have high := (t.get (m.rawOff c + 1)).toNat_lt
    unfold entry12
    split <;> omega

theorem link_lt : m.link disk c < m.entryBound := entryOf_lt _

theorem entryBound_le : m.entryBound ≤ 2 ^ 28 := by
  unfold Mount.entryBound
  split <;> decide

theorem mark_pos : 0 < m.mark := by
  unfold Mount.mark
  split <;> decide

theorem next_of_lt (small : m.link disk c < m.mark) : m.next disk c = m.link disk c :=
  if_neg (Nat.not_le.mpr small)

theorem next_of_mark (mark : m.mark ≤ m.link disk c) : m.next disk c = noClus := if_pos mark

theorem next_eq_noClus : m.next disk c = noClus ↔ m.mark ≤ m.link disk c := by
  refine ⟨fun last => ?_, next_of_mark⟩
  by_contra small
  have bound : m.link disk c < m.entryBound := link_lt
  have most : m.entryBound ≤ 2 ^ 28 := entryBound_le
  rw [next_of_lt (Nat.not_le.mp small)] at last
  unfold noClus at last
  omega

theorem next_eq_zero : m.next disk c = 0 ↔ m.link disk c = 0 := by
  have positive : 0 < m.mark := mark_pos
  by_cases small : m.link disk c < m.mark
  · rw [next_of_lt small]
  · rw [next_of_mark (Nat.not_lt.mp small)]
    unfold noClus
    omega

theorem TableWrite.link_self (write : TableWrite m c value disk disk')
    (sane : m.Sane capacity) (inRange : c < m.clusterCount + 2)
    (small : value < m.entryBound) : m.link disk' c = value := by
  rw [Mount.link, write.table]
  exact entryOf_putEntry_self (sane.covers c inRange) small

theorem TableWrite.link_of_ne (write : TableWrite m c value disk disk')
    (sane : m.Sane capacity) (inRange : c < m.clusterCount + 2) (ne : c' ≠ c) :
    m.link disk' c' = m.link disk c' := by
  rw [Mount.link, write.table]
  exact entryOf_putEntry_ne (sane.covers c inRange) ne

theorem eoc_lt_bound (sane : m.Sane capacity) : m.eoc < m.entryBound := by
  have type := sane.type_eq
  unfold Mount.eoc Mount.entryBound
  split at type
  · simp [type]
  split at type <;> simp [type]

theorem mark_le_eoc (sane : m.Sane capacity) : m.mark ≤ m.eoc := by
  have type := sane.type_eq
  unfold Mount.eoc Mount.mark
  split at type
  · simp [type]
  split at type <;> simp [type]

/-- The clusters lie on the device, and none of them has the number of an end mark. -/
structure Mount.Lays (m : Mount) (capacity : Nat) : Prop where
  capacity_lt : capacity < 2 ^ 32
  sectors : 0 < m.secPerClus
  dataStart : 0 < m.firstDataSec
  dataFits : m.firstDataSec + m.clusterCount * m.secPerClus ≤ capacity
  count_le : m.clusterCount + 2 ≤ m.mark

theorem Mount.Lays.cluster_lt_mark (lays : m.Lays capacity) (isCluster : m.IsCluster c) :
    c < m.mark :=
  isCluster.2.trans_le lays.count_le

theorem Mount.Sane.lays (sane : m.Sane capacity) : m.Lays capacity where
  capacity_lt := sane.capacity_lt
  sectors := sane.sectors
  dataStart := by
    have reserved := sane.reserved
    have root := sane.rootStart
    have data := sane.dataStart
    omega
  dataFits := sane.dataFits
  count_le := by
    have type := sane.type_eq
    have small := sane.count_le
    unfold Mount.mark
    split at type
    · simp only [type]
      omega
    split at type <;> simp only [type] <;> omega

theorem cluster_lt_mark (sane : m.Sane capacity) (isCluster : m.IsCluster c) :
    c < m.mark :=
  sane.lays.cluster_lt_mark isCluster

theorem mark_le_bound : m.mark ≤ m.entryBound := by
  unfold Mount.mark Mount.entryBound
  cases m.type <;> decide

theorem link_congr (same : ∀ lba, ¬ m.Outside lba → disk' lba = disk lba) (fats : 0 < m.numFats) :
    m.link disk' c = m.link disk c := by
  have table : m.table disk' = m.table disk := table_congr fun s inTable => by
    refine same _ fun outside => ?_
    have ne := outside_ne outside fats inTable
    simp at ne
  rw [Mount.link, table, Mount.link]

end Links

section Sectors

variable {m : Mount} {capacity c c' s s' : Nat}

def Mount.dataLba (m : Mount) (c s : Nat) : Nat := m.firstDataSec + (c - 2) * m.secPerClus + s

namespace Mount.Lays

theorem dataLba_lt (lays : m.Lays capacity) (isCluster : m.IsCluster c)
    (inCluster : s < m.secPerClus) : m.dataLba c s < capacity := by
  have fits := lays.dataFits
  have before : c - 2 + 1 ≤ m.clusterCount := by
    have range := isCluster
    unfold Mount.IsCluster at range
    omega
  have product := Nat.mul_le_mul_right m.secPerClus before
  rw [Nat.add_mul, Nat.one_mul] at product
  unfold Mount.dataLba
  omega

theorem clusToLba_add (lays : m.Lays capacity) (isCluster : m.IsCluster c)
    (inCluster : s < m.secPerClus) : u32 (m.clusToLba c + s) = m.dataLba c s := by
  have bound := lays.capacity_lt
  have inside := lays.dataLba_lt isCluster inCluster
  have notReserved : ¬ c < 2 := Nat.not_lt.mpr isCluster.1
  unfold Mount.dataLba at inside ⊢
  have start : u32 (m.firstDataSec + (c - 2) * m.secPerClus) =
      m.firstDataSec + (c - 2) * m.secPerClus := u32_of_lt (by omega)
  rw [Mount.clusToLba, if_neg notReserved, start]
  exact u32_of_lt (by omega)

theorem clusToLba_eq (lays : m.Lays capacity) (isCluster : m.IsCluster c) :
    m.clusToLba c = m.dataLba c 0 := by
  have first := lays.clusToLba_add isCluster lays.sectors
  rwa [Nat.add_zero, u32_of_lt] at first
  unfold Mount.clusToLba
  split
  · decide
  · exact u32_lt _

theorem clusterLbas_eq (lays : m.Lays capacity) (isCluster : m.IsCluster c) :
    m.clusterLbas c = (List.range m.secPerClus).map (m.dataLba c) := by
  refine List.map_congr_left fun s inRange => ?_
  exact lays.clusToLba_add isCluster (List.mem_range.mp inRange)

end Mount.Lays

theorem dataLba_lt (sane : m.Sane capacity) (isCluster : m.IsCluster c)
    (inCluster : s < m.secPerClus) : m.dataLba c s < capacity :=
  sane.lays.dataLba_lt isCluster inCluster

theorem clusToLba_add (sane : m.Sane capacity) (isCluster : m.IsCluster c)
    (inCluster : s < m.secPerClus) : u32 (m.clusToLba c + s) = m.dataLba c s :=
  sane.lays.clusToLba_add isCluster inCluster

theorem clusToLba_eq (sane : m.Sane capacity) (isCluster : m.IsCluster c) :
    m.clusToLba c = m.dataLba c 0 :=
  sane.lays.clusToLba_eq isCluster

theorem dataLba_outside (sane : m.Sane capacity) : m.Outside (m.dataLba c s) := by
  have root := sane.rootStart
  have data := sane.dataStart
  right
  unfold Mount.dataLba
  omega

theorem dataLba_inj (isCluster : m.IsCluster c) (isCluster' : m.IsCluster c')
    (inCluster : s < m.secPerClus) (inCluster' : s' < m.secPerClus)
    (same : m.dataLba c s = m.dataLba c' s') : c = c' ∧ s = s' := by
  have sum : s + m.secPerClus * (c - 2) = s' + m.secPerClus * (c' - 2) := by
    unfold Mount.dataLba at same
    rw [Nat.mul_comm m.secPerClus, Nat.mul_comm m.secPerClus]
    omega
  have positive : 0 < m.secPerClus := by omega
  have quotient := congrArg (· / m.secPerClus) sum
  have rest := congrArg (· % m.secPerClus) sum
  simp only [Nat.add_mul_div_left _ _ positive, Nat.div_eq_of_lt inCluster,
    Nat.div_eq_of_lt inCluster', Nat.zero_add, Nat.add_mul_mod_self_left,
    Nat.mod_eq_of_lt inCluster, Nat.mod_eq_of_lt inCluster'] at quotient rest
  have first := isCluster.1
  have second := isCluster'.1
  exact ⟨by omega, rest⟩

theorem clusterLbas_eq (sane : m.Sane capacity) (isCluster : m.IsCluster c) :
    m.clusterLbas c = (List.range m.secPerClus).map (m.dataLba c) :=
  sane.lays.clusterLbas_eq isCluster

theorem mem_clusterLbas (sane : m.Sane capacity) (isCluster : m.IsCluster c) {lba : Nat} :
    lba ∈ m.clusterLbas c ↔ ∃ s, s < m.secPerClus ∧ m.dataLba c s = lba := by
  rw [clusterLbas_eq sane isCluster]
  simp

/-- The size of a cluster is a power of two, so the mask is a remainder. -/
theorem clusSize_eq (sane : m.Sane capacity) : m.clusSize = m.secPerClus * 512 := by
  obtain ⟨k, small, power⟩ := sane.sectors_pow
  have bound : m.secPerClus ≤ 2 ^ 7 := by
    rw [power]
    exact Nat.pow_le_pow_right (by decide) small
  exact u32_of_lt (by omega)

theorem inCluster_eq (sane : m.Sane capacity) (pos : Nat) :
    inCluster m.clusSize pos = pos % (m.secPerClus * 512) := by
  obtain ⟨k, small, power⟩ := sane.sectors_pow
  have size : m.secPerClus * 512 = 2 ^ (k + 9) := by rw [power, Nat.pow_add]
  have bound : 2 ^ (k + 9) ≤ 2 ^ 16 := Nat.pow_le_pow_right (by decide) (by omega)
  have positive : 0 < 2 ^ (k + 9) := Nat.two_pow_pos _
  have mask : u32 (2 ^ (k + 9) + (2 ^ 32 - 1)) = 2 ^ (k + 9) - 1 := by
    unfold u32
    omega
  rw [inCluster, clusSize_eq sane, size, mask, Nat.and_two_pow_sub_one_eq_mod]

end Sectors

section Search

variable {d : Driver}

theorem clusters_eq (sane : d.m.Sane d.blk.capacity) :
    d.m.clusters = List.range' 2 d.m.clusterCount := by
  rw [Mount.clusters, sane.clusEnd_eq, Nat.add_sub_cancel]

theorem tryCluster_run {c : Nat} (ready : Ready d) (inRange : c < d.m.clusterCount + 2) :
    (d.m.link d.disk c = 0 ∧ ∃ d', tryCluster d.m c d = some (some c, d') ∧ DiskStep d d' ∧
      TableWrite d.m c d.m.eoc d.disk d'.disk) ∨
    (d.m.link d.disk c ≠ 0 ∧ ∃ d', tryCluster d.m c d = some (none, d') ∧ CacheStep d d') := by
  obtain ⟨d₁, run₁, step₁⟩ := fatNextClus_run ready.good ready.sane inRange
  by_cases isFree : d.m.link d.disk c = 0
  · left
    have ready₁ := step₁.ready ready
    obtain ⟨d₂, run₂, step₂, write⟩ := fatSetEntry_run (c := c) d₁.m.eoc ready₁
      (by rwa [step₁.m])
    rw [step₁.m, step₁.disk] at write
    refine ⟨isFree, d₂, ?_, DiskStep.of_cache step₁ step₂, write⟩
    rw [tryCluster, Prog.bind_eq_of_run run₁, if_pos (next_eq_zero.mpr isFree), ← step₁.m,
      Prog.bind_eq_of_run run₂]
    rfl
  · right
    refine ⟨isFree, d₁, ?_, step₁⟩
    rw [tryCluster, Prog.bind_eq_of_run run₁, if_neg (mt next_eq_zero.mp isFree)]
    rfl

theorem firstFree_run (ready : Ready d) {first count : Nat}
    (inRange : first + count ≤ d.m.clusterCount + 2) :
    (∃ c, first ≤ c ∧ c < first + count ∧ d.m.link d.disk c = 0 ∧
      (∀ c', first ≤ c' → c' < c → d.m.link d.disk c' ≠ 0) ∧
      ∃ d', Prog.firstOf (tryCluster d.m) (List.range' first count) d = some (some c, d') ∧
        DiskStep d d' ∧ TableWrite d.m c d.m.eoc d.disk d'.disk) ∨
    ((∀ c, first ≤ c → c < first + count → d.m.link d.disk c ≠ 0) ∧
      ∃ d', Prog.firstOf (tryCluster d.m) (List.range' first count) d = some (none, d') ∧
        CacheStep d d') := by
  induction count generalizing first d with
  | zero =>
      right
      exact ⟨fun c after before => by omega, d, rfl, CacheStep.refl ready.good⟩
  | succ count ih =>
      rw [List.range'_succ]
      rcases tryCluster_run (c := first) ready (by omega) with
        ⟨isFree, d', run, step, write⟩ | ⟨used, d₁, run₁, step₁⟩
      · left
        exact ⟨first, le_rfl, by omega, isFree, fun c' after before => by omega, d',
          Prog.firstOf_some run, step, write⟩
      · have rest : first + 1 + count ≤ d₁.m.clusterCount + 2 := by
          rw [step₁.m]
          omega
        have found := ih (step₁.ready ready) rest
        rw [step₁.m, step₁.disk] at found
        rw [Prog.firstOf_none run₁]
        rcases found with ⟨c, after, before, isFree, least, d₂, run₂, step₂, write⟩ |
          ⟨used', d₂, run₂, step₂⟩
        · left
          refine ⟨c, by omega, by omega, isFree, fun c' after' before' => ?_, d₂, run₂,
            DiskStep.of_cache step₁ step₂, write⟩
          rcases Nat.eq_or_lt_of_le after' with rfl | later
          · exact used
          · exact least c' later before'
        · right
          refine ⟨fun c after' before' => ?_, d₂, run₂, step₁.trans step₂⟩
          rcases Nat.eq_or_lt_of_le after' with rfl | later
          · exact used
          · exact used' c later (by omega)

/-- What `fat_alloc_cluster` does when it finds a cluster. -/
structure Allocated (d d' : Driver) (c : Nat) : Prop where
  isCluster : d.m.IsCluster c
  isFree : d.m.link d.disk c = 0
  least : ∀ c', d.m.IsCluster c' → d.m.link d.disk c' = 0 → c ≤ c'
  step : DiskStep d d'
  write : TableWrite d.m c d.m.eoc d.disk d'.disk

/-- `fat_alloc_cluster` takes the first free cluster, or reports a full disk. -/
theorem fatAllocCluster_run (ready : Ready d) :
    (∃ c d', fatAllocCluster d = some (c, d') ∧ Allocated d d' c) ∨
    ((∀ c, d.m.IsCluster c → d.m.link d.disk c ≠ 0) ∧
      ∃ d', fatAllocCluster d = some (0, d') ∧ CacheStep d d') := by
  rw [fatAllocCluster, Prog.bind_eq_of_run (mount_run d), clusters_eq ready.sane]
  rcases firstFree_run ready (Nat.add_comm 2 d.m.clusterCount).le with
    ⟨c, after, before, isFree, least, d', run, step, write⟩ | ⟨used, d', run, step⟩
  · left
    refine ⟨c, d', Prog.bind_eq_of_run run, ⟨after, by omega⟩, isFree, ?_, step, write⟩
    intro c' isCluster isFree'
    by_contra smaller
    exact least c' isCluster.1 (by omega) isFree'
  · right
    refine ⟨fun c isCluster => used c isCluster.1 ?_, d', Prog.bind_eq_of_run run, step⟩
    have range := isCluster.2
    omega

namespace Allocated

variable {d' : Driver} {c c' : Nat}

theorem link_self (alloc : Allocated d d' c) (sane : d.m.Sane d.blk.capacity) :
    d.m.link d'.disk c = d.m.eoc :=
  alloc.write.link_self sane alloc.isCluster.2 (eoc_lt_bound sane)

theorem link_of_ne (alloc : Allocated d d' c) (sane : d.m.Sane d.blk.capacity)
    (ne : c' ≠ c) : d.m.link d'.disk c' = d.m.link d.disk c' :=
  alloc.write.link_of_ne sane alloc.isCluster.2 ne

/-- An allocated cluster ends its chain. -/
theorem next_self (alloc : Allocated d d' c) (sane : d.m.Sane d.blk.capacity) :
    d.m.next d'.disk c = noClus :=
  next_of_mark (by rw [alloc.link_self sane]; exact mark_le_eoc sane)

theorem ne_of_used (alloc : Allocated d d' c) (used : d.m.link d.disk c' ≠ 0) : c' ≠ c := by
  rintro rfl
  exact used alloc.isFree

end Allocated

end Search

section Extension

variable {d : Driver} {c : Nat}

theorem writeAll_run (free : Free d) (lbas : List Nat) (has : ∀ lba ∈ lbas, d.blk.Has lba) :
    ∃ d', (lbas.forM fun lba => do let _ ← writeWbuf lba) d = some ((), d') ∧ DiskStep d d' ∧
      d'.fatWbuf = d.fatWbuf ∧
      d'.disk = fun x => if x ∈ lbas then d.fatWbuf else d.disk x := by
  induction lbas generalizing d with
  | nil => exact ⟨d, rfl, DiskStep.refl free, rfl, by simp⟩
  | cons lba rest ih =>
      obtain ⟨d₁, run₁, step₁, disk₁, buf₁⟩ := writeWbuf_run free (has lba List.mem_cons_self)
      obtain ⟨d₂, run₂, step₂, buf₂, disk₂⟩ := ih step₁.free fun x mem =>
        step₁.has (has x (List.mem_cons_of_mem lba mem))
      refine ⟨d₂, ?_, step₁.trans step₂, buf₂.trans buf₁, ?_⟩
      · exact (Prog.bind_eq_of_run (Prog.bind_eq_of_run run₁)).trans run₂
      · funext x
        rw [disk₂, disk₁, buf₁]
        by_cases last : x ∈ rest
        · simp [last]
        · by_cases first : x = lba
          · simp [first]
          · simp only [List.mem_cons, first, last, or_self, if_false]
            exact Function.update_of_ne first _ _

theorem has_dataLba (sane : d.m.Sane d.blk.capacity) (isCluster : d.m.IsCluster c) {s : Nat}
    (inCluster : s < d.m.secPerClus) : d.blk.Has (d.m.dataLba c s) :=
  has_of_lt sane (dataLba_lt sane isCluster inCluster)

theorem zeroCluster_run (free : Free d) (isCluster : d.m.IsCluster c) :
    ∃ d', zeroCluster c d = some ((), d') ∧ DiskStep d d' ∧
      d'.disk = fun x => if x ∈ d.m.clusterLbas c then Buffer.zero else d.disk x := by
  have sane := free.1.sane
  obtain ⟨d', run, step, -, disk⟩ := writeAll_run (free.edited Buffer.zero)
    (d.m.clusterLbas c) fun lba mem => by
      obtain ⟨s, inCluster, rfl⟩ := (mem_clusterLbas sane isCluster).mp mem
      exact has_dataLba sane isCluster inCluster
  refine ⟨d', ?_, step.of_edited, disk⟩
  rw [zeroCluster, Prog.bind_eq_of_run (mount_run d)]
  exact run

theorem not_outside_of_table {m : Mount} {k s : Nat} (isCopy : k < m.numFats)
    (inTable : s < m.fatSec) : ¬ m.Outside (m.rsvdSec + k * m.fatSec + s) :=
  fun outside => outside_ne outside isCopy inTable rfl

theorem mirrored_congr {m : Mount} {disk disk' : Nat → Sector}
    (same : ∀ lba, ¬ m.Outside lba → disk' lba = disk lba) (fats : 0 < m.numFats)
    (mirrored : m.Mirrored disk) : m.Mirrored disk' := by
  intro k isCopy s inTable
  have first := same _ (not_outside_of_table (k := 0) fats inTable)
  rw [Nat.zero_mul, Nat.add_zero] at first
  rw [same _ (not_outside_of_table isCopy inTable), first]
  exact mirrored k isCopy s inTable

theorem not_outside_ne_data {m : Mount} {capacity lba : Nat} (sane : m.Sane capacity)
    (isCluster : m.IsCluster c) (notOutside : ¬ m.Outside lba) : lba ∉ m.clusterLbas c := by
  intro mem
  obtain ⟨s, inCluster, rfl⟩ := (mem_clusterLbas sane isCluster).mp mem
  exact notOutside (dataLba_outside sane)

/-- A cluster allocated and linked behind the end of a chain. -/
structure Appended (d d' : Driver) (c nc : Nat) : Prop where
  isCluster : d.m.IsCluster nc
  isFree : d.m.link d.disk nc = 0
  step : DiskStep d d'
  linkNew : d.m.link d'.disk nc = d.m.eoc
  linkLast : d.m.link d'.disk c = nc
  linkRest : ∀ x, x ≠ nc → x ≠ c → d.m.link d'.disk x = d.m.link d.disk x
  outside : ∀ lba, d.m.Outside lba → d'.disk lba = d.disk lba
  mirrored : d.m.Mirrored d.disk → d.m.Mirrored d'.disk

theorem appended_run {d₁ : Driver} {nc : Nat} (alloc : Allocated d d₁ nc)
    (sane : d.m.Sane d.blk.capacity) (isCluster : d.m.IsCluster c)
    (used : d.m.link d.disk c ≠ 0) :
    ∃ d₂, fatSetEntry c nc d₁ = some (true, d₂) ∧ Appended d d₂ c nc := by
  have m₁ : d₁.m = d.m := alloc.step.m
  have ne : c ≠ nc := alloc.ne_of_used used
  have bound : nc < d.m.entryBound :=
    lt_of_lt_of_le (cluster_lt_mark sane alloc.isCluster) mark_le_bound
  have inRange : c < d₁.m.clusterCount + 2 := by
    rw [m₁]
    exact isCluster.2
  obtain ⟨d₂, run₂, step₂, write₂⟩ := fatSetEntry_run nc alloc.step.free.1 inRange
  rw [m₁] at write₂
  refine ⟨d₂, run₂, alloc.isCluster, alloc.isFree, alloc.step.trans step₂, ?_, ?_, ?_, ?_, ?_⟩
  · rw [write₂.link_of_ne sane isCluster.2 ne.symm, alloc.link_self sane]
  · exact write₂.link_self sane isCluster.2 bound
  · intro x notNew notLast
    rw [write₂.link_of_ne sane isCluster.2 notLast, alloc.link_of_ne sane notNew]
  · intro lba outside
    rw [write₂.outside lba outside, alloc.write.outside lba outside]
  · exact fun mirrored => write₂.mirrored (alloc.write.mirrored mirrored)

theorem Appended.next_new {d' : Driver} {nc : Nat} (app : Appended d d' c nc)
    (sane : d.m.Sane d.blk.capacity) : d.m.next d'.disk nc = noClus :=
  next_of_mark (by rw [app.linkNew]; exact mark_le_eoc sane)

theorem Allocated.ne_zero {d₁ : Driver} {nc : Nat} (alloc : Allocated d d₁ nc) : nc ≠ 0 := by
  have atLeast := alloc.isCluster.1
  omega

/-- A directory extended by one cluster. -/
structure Extended (d d' : Driver) (c nc : Nat) : Prop where
  isCluster : d.m.IsCluster nc
  isFree : d.m.link d.disk nc = 0
  step : DiskStep d d'
  linkNew : d.m.link d'.disk nc = d.m.eoc
  linkLast : d.m.link d'.disk c = nc
  linkRest : ∀ x, x ≠ nc → x ≠ c → d.m.link d'.disk x = d.m.link d.disk x
  zeroed : ∀ lba ∈ d.m.clusterLbas nc, d'.disk lba = Buffer.zero
  outside : ∀ lba, d.m.Outside lba → lba ∉ d.m.clusterLbas nc → d'.disk lba = d.disk lba
  mirrored : d.m.Mirrored d.disk → d.m.Mirrored d'.disk

theorem extendDir_run (ready : Ready d) (isCluster : d.m.IsCluster c)
    (used : d.m.link d.disk c ≠ 0) :
    (∃ nc d', extendDir c d = some (some nc, d') ∧ Extended d d' c nc) ∨
    ((∀ x, d.m.IsCluster x → d.m.link d.disk x ≠ 0) ∧
      ∃ d', extendDir c d = some (none, d') ∧ CacheStep d d') := by
  have sane := ready.sane
  rcases fatAllocCluster_run ready with ⟨nc, d₁, run₁, alloc⟩ | ⟨full, d', run, step⟩
  · left
    obtain ⟨d₂, run₂, app⟩ := appended_run alloc sane isCluster used
    have m₂ : d₂.m = d.m := app.step.m
    have isCluster₂ : d₂.m.IsCluster nc := by
      rw [m₂]
      exact alloc.isCluster
    obtain ⟨d₃, run₃, step₃, disk₃⟩ := zeroCluster_run app.step.free isCluster₂
    rw [m₂] at disk₃
    have same : ∀ lba, ¬ d.m.Outside lba → d₃.disk lba = d₂.disk lba := by
      intro lba notOutside
      rw [disk₃]
      exact if_neg (not_outside_ne_data sane alloc.isCluster notOutside)
    refine ⟨nc, d₃, ?_, alloc.isCluster, alloc.isFree, app.step.trans step₃,
      ?_, ?_, ?_, ?_, ?_, ?_⟩
    · rw [extendDir, Prog.bind_eq_of_run run₁, if_neg alloc.ne_zero, Prog.bind_eq_of_run run₂]
      exact Prog.bind_eq_of_run run₃
    · rw [link_congr same sane.fats, app.linkNew]
    · rw [link_congr same sane.fats, app.linkLast]
    · intro x notNew notLast
      rw [link_congr same sane.fats, app.linkRest x notNew notLast]
    · intro lba mem
      rw [disk₃]
      exact if_pos mem
    · intro lba outside other
      rw [disk₃]
      exact (if_neg other).trans (app.outside lba outside)
    · exact fun mirrored => mirrored_congr same sane.fats (app.mirrored mirrored)
  · right
    refine ⟨full, d', ?_, step⟩
    rw [extendDir, Prog.bind_eq_of_run run]
    rfl

theorem Extended.next_new {d' : Driver} {nc : Nat} (ext : Extended d d' c nc)
    (sane : d.m.Sane d.blk.capacity) : d.m.next d'.disk nc = noClus :=
  next_of_mark (by rw [ext.linkNew]; exact mark_le_eoc sane)

theorem clusterLbas_eq_cons (sane : d.m.Sane d.blk.capacity) (isCluster : d.m.IsCluster c) :
    d.m.clusterLbas c = d.m.clusToLba c :: (d.m.clusterLbas c).tail := by
  have positive := sane.sectors
  have head : (d.m.clusterLbas c).head? = some (d.m.clusToLba c) := by
    rw [clusterLbas_eq sane isCluster, clusToLba_eq sane isCluster]
    cases count : d.m.secPerClus with
    | zero => omega
    | succ count => simp [List.range_succ_eq_map]
  exact List.eq_cons_of_mem_head? head

theorem writeDirCluster_run (free : Free d) (isCluster : d.m.IsCluster c) (parent : Nat) :
    ∃ d', writeDirCluster c parent d = some (true, d') ∧ DiskStep d d' ∧
      d'.disk = fun x =>
        if x ∈ (d.m.clusterLbas c).tail then Buffer.zero
        else if x = d.m.clusToLba c then dotSector c parent
        else d.disk x := by
  have sane := free.1.sane
  have has : ∀ lba ∈ d.m.clusterLbas c, d.blk.Has lba := by
    intro lba mem
    obtain ⟨s, inCluster, rfl⟩ := (mem_clusterLbas sane isCluster).mp mem
    exact has_dataLba sane isCluster inCluster
  rw [clusterLbas_eq_cons sane isCluster] at has
  obtain ⟨d₁, run₁, step₁, disk₁, -⟩ := writeWbuf_run (free.edited (dotSector c parent))
    (has _ List.mem_cons_self)
  obtain ⟨d₂, run₂, step₂, -, disk₂⟩ := writeEach_run (step₁.free.edited Buffer.zero)
    (d.m.clusterLbas c).tail id fun lba mem =>
      step₁.has (has lba (List.mem_cons_of_mem _ mem))
  refine ⟨d₂, ?_, step₁.of_edited.trans step₂.of_edited, ?_⟩
  · rw [writeDirCluster, Prog.bind_eq_of_run (mount_run d),
      Prog.bind_eq_of_run (editWbuf_run _ d)]
    refine (Prog.bind_eq_of_run run₁).trans ?_
    exact (Prog.bind_eq_of_run (editWbuf_run _ d₁)).trans (Prog.bind_eq_of_run run₂)
  · funext x
    rw [disk₂, List.map_id]
    refine if_congr Iff.rfl rfl ?_
    rw [disk₁]
    exact Function.update_apply _ _ _ _

end Extension

end Ncd15.Fat
