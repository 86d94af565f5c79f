import Ncd15.Fat.StaleLinks

/-!
# The allocator and the free count

`fat_alloc_cluster` and `fat_count_free_clusters` scan the table through the shared
buffer.  On every mounted volume whose table covers its clusters they agree on what is
free, and an allocation changes one entry.
-/

namespace Ncd15.Fat

open Ncd15.Library

section Volumes

/-- `disk_ramfat.c` keeps the volume in an array, and so has 32 bits for its size. -/
def BlkDev.InMemory (b : BlkDev) : Prop := b.capacity * 512 < 2 ^ 32

instance (b : BlkDev) : Decidable b.InMemory := inferInstanceAs (Decidable (_ < _))

/-- The table of a mounted volume covers its clusters and lies on the device, which does
not fail, and the shared buffer is not stale. -/
structure Serves (d : Driver) : Prop where
  mounted : ∃ d₀ d₁, fatMount d₀ = some (0, d₁) ∧ d.m = d₁.m
  covers : ∀ c, c < d.m.clusterCount + 2 → d.m.rawOff c + d.m.entryWidth ≤ d.m.fatSec * 512
  inMemory : d.blk.InMemory
  /-- The code for an entry that spans sectors writes two copies in any case. -/
  onDevice : d.m.rsvdSec + max d.m.numFats 2 * d.m.fatSec ≤ d.blk.capacity
  healthy : d.blk.faults = []
  coherent : d.Coherent

/-- What the mount data of a mounted volume have in common. -/
structure Mount.Accepted (m : Mount) : Prop where
  valid : m.valid = true
  sectors : 0 < m.secPerClus
  fats : 0 < m.numFats
  rsvdSec_lt : m.rsvdSec < 2 ^ 16
  numFats_lt : m.numFats < 2 ^ 8
  type_eq : m.type =
    if m.clusterCount < 4085 then .fat12
    else if m.clusterCount < 65525 then .fat16
    else .fat32

theorem fatMount_accepted {d d' : Driver} (run : fatMount d = some (0, d')) :
    d'.m.Accepted := by
  obtain ⟨m, -, mounted⟩ := fatMount_mounts run
  obtain ⟨sectors, fats⟩ := fatMount_accepts run
  refine ⟨?_, sectors, fats, ?_, ?_, ?_⟩
  · rw [mounted]
    rfl
  · rw [mounted, derived_rsvdSec, extended_rsvdSec]
    exact (d.disk 0).loadLe_lt 14 2
  · rw [mounted, derived_numFats, extended_numFats]
    exact ((d.disk 0).get 16).toNat_lt
  · rw [mounted]
    rfl

variable {m : Mount} {d d' : Driver} {c : Nat}

theorem Mount.Accepted.eoc (accepted : m.Accepted) : m.mark ≤ m.eoc ∧ m.eoc < m.entryBound := by
  have type := accepted.type_eq
  unfold Mount.mark Mount.eoc Mount.entryBound
  split at type
  · simp [type]
  split at type <;> simp [type]

namespace Serves

theorem accepted (serves : Serves d) : d.m.Accepted := by
  obtain ⟨d₀, d₁, run, same⟩ := serves.mounted
  rw [same]
  exact fatMount_accepted run

theorem capacity_lt (serves : Serves d) : d.blk.capacity < 2 ^ 32 := by
  have bytes := serves.inMemory
  unfold BlkDev.InMemory at bytes
  omega

/-- A copy of the table, or the second one when there is none, ends on the device. -/
theorem copy_le (serves : Serves d) {k : Nat} (few : k < max d.m.numFats 2) :
    d.m.rsvdSec + k * d.m.fatSec + d.m.fatSec ≤ d.blk.capacity := by
  have device := serves.onDevice
  have product : (k + 1) * d.m.fatSec ≤ max d.m.numFats 2 * d.m.fatSec :=
    Nat.mul_le_mul_right _ few
  rw [Nat.add_mul, Nat.one_mul] at product
  omega

theorem fatSec_le (serves : Serves d) : d.m.rsvdSec + d.m.fatSec ≤ d.blk.capacity := by
  have first := serves.copy_le (k := 0) (by omega)
  omega

theorem places (serves : Serves d) (inRange : c < d.m.clusterCount + 2) : d.m.Places c := by
  have covered := serves.covers c inRange
  have first := serves.fatSec_le
  have bytes := serves.inMemory
  unfold BlkDev.InMemory at bytes
  exact ⟨by omega, covered, by omega⟩

theorem served (serves : Serves d) (inRange : c < d.m.clusterCount + 2) :
    d.m.Served d.blk.capacity c := by
  have places := serves.places inRange
  refine ⟨places, serves.accepted.fats, serves.capacity_lt.le, ?_, ?_⟩
  · intro k isCopy
    have copy := serves.copy_le (k := k) (by omega)
    have inTable := places.inTable
    omega
  · intro straddles
    have copy := serves.copy_le (k := 1) (by omega)
    have spill := places.spill straddles
    omega

theorem hasEntry (serves : Serves d) (inRange : c < d.m.clusterCount + 2) : d.HasEntry c :=
  (serves.places inRange).hasEntry serves.fatSec_le serves.capacity_lt

theorem clusEnd_lt (serves : Serves d) : d.m.clusterCount + 2 < 2 ^ 32 := by
  have covered := (serves.places (c := d.m.clusterCount + 1) (by omega)).small
  unfold Mount.rawOff at covered
  split at covered <;> omega

theorem clusEnd_eq (serves : Serves d) : d.m.clusEnd = d.m.clusterCount + 2 :=
  u32_of_lt serves.clusEnd_lt

theorem clusters_eq (serves : Serves d) : d.m.clusters = List.range' 2 d.m.clusterCount := by
  rw [Mount.clusters, serves.clusEnd_eq, Nat.add_sub_cancel]

theorem mem_clusters (serves : Serves d) : c ∈ d.m.clusters ↔ d.m.IsCluster c := by
  rw [serves.clusters_eq, List.mem_range'_1, Nat.add_comm 2]
  rfl

/-- A step that keeps the device's size and the mount data, and leaves the shared buffer
as the disk has it. -/
theorem moved (serves : Serves d) (m : d'.m = d.m)
    (capacity : d'.blk.capacity = d.blk.capacity) (healthy : d'.blk.faults = [])
    (coherent : d'.Coherent) : Serves d' := by
  refine ⟨?_, ?_, ?_, ?_, healthy, coherent⟩
  · rw [m]
    exact serves.mounted
  · rw [m]
    exact serves.covers
  · rw [BlkDev.InMemory, capacity]
    exact serves.inMemory
  · rw [m, capacity]
    exact serves.onDevice

end Serves

end Volumes

section Scans

/-- The driver after reads of the table. -/
structure Scanned (d d' : Driver) : Prop where
  blk : d'.blk = d.blk
  m : d'.m = d.m
  coherent : d'.Coherent

variable {d d' d₁ : Driver} {c : Nat}

theorem readFatSec_scanned (d : Driver) : KeptByReads (Scanned d) := by
  intro lba d₁ scanned ok d' run
  obtain ⟨blk, m⟩ := readFatSec_device d.blk d.m lba d₁ ⟨scanned.blk, scanned.m⟩ ok d' run
  refine ⟨blk, m, ?_⟩
  unfold readFatSec at run
  split at run
  · obtain ⟨-, rfl⟩ := Prod.mk.inj (Option.some.inj run)
    exact scanned.coherent
  split at run
  · obtain ⟨-, rfl⟩ := Prod.mk.inj (Option.some.inj run)
    exact fun _ => rfl
  · obtain ⟨-, rfl⟩ := Prod.mk.inj (Option.some.inj run)
    exact scanned.coherent

namespace Scanned

theorem refl (coherent : d.Coherent) : Scanned d d := ⟨rfl, rfl, coherent⟩

theorem disk (scanned : Scanned d d') : d'.disk = d.disk := congrArg BlkDev.sec scanned.blk

theorem serves (scanned : Scanned d d') (serves : Serves d) : Serves d' :=
  serves.moved scanned.m (congrArg BlkDev.capacity scanned.blk)
    (by rw [scanned.blk, serves.healthy]) scanned.coherent

end Scanned

/-- `fat_next_clus` reads the link of a cluster. -/
theorem Scanned.next_run (scanned : Scanned d d₁) (serves : Serves d)
    (inRange : c < d.m.clusterCount + 2) :
    ∃ d', fatNextClus c d₁ = some (d.m.next d.disk c, d') ∧ Scanned d d' := by
  have serves₁ := scanned.serves serves
  rw [← scanned.m] at inRange
  obtain ⟨d', run, -⟩ := fatNextClus_value scanned.coherent (serves₁.places inRange)
    (serves₁.hasEntry inRange)
  have kept := fatNextClus_keeps (readFatSec_scanned d) c d₁ scanned _ d' run
  rw [scanned.m, scanned.disk] at run
  exact ⟨d', run, kept⟩

/-- The free clusters of a list are counted. -/
theorem countLoop_run (serves : Serves d) (clusters : List Nat) (count : Nat)
    (inRange : ∀ c ∈ clusters, c < d.m.clusterCount + 2) (scanned : Scanned d d₁)
    (small : count + clusters.length < 2 ^ 32) :
    ∃ d', (clusters.foldlM (fun count c => do
        pure (if (← fatNextClus c) = 0 then u32 (count + 1) else count)) count : DriverM Nat) d₁ =
      some (count + clusters.countP fun c => d.m.link d.disk c = 0, d') ∧ Scanned d d' := by
  induction clusters generalizing d₁ count with
  | nil => exact ⟨d₁, rfl, scanned⟩
  | cons c rest ih =>
      rw [List.length_cons] at small
      obtain ⟨d₂, next, scanned₂⟩ := scanned.next_run serves (inRange c List.mem_cons_self)
      have rest_inRange : ∀ c ∈ rest, c < d.m.clusterCount + 2 :=
        fun e mem => inRange e (List.mem_cons_of_mem c mem)
      by_cases isFree : d.m.link d.disk c = 0
      · obtain ⟨d', run, scanned'⟩ := ih (count + 1) rest_inRange scanned₂ (by omega)
        refine ⟨d', ?_, scanned'⟩
        rw [List.foldlM_cons, Prog.bind_eq_of_run (Prog.bind_eq_of_run next),
          if_pos (next_eq_zero.mpr isFree), u32_of_lt (by omega), run,
          List.countP_cons_of_pos (by simpa using isFree)]
        congr 2
        omega
      · obtain ⟨d', run, scanned'⟩ := ih count rest_inRange scanned₂ (by omega)
        refine ⟨d', ?_, scanned'⟩
        rw [List.foldlM_cons, Prog.bind_eq_of_run (Prog.bind_eq_of_run next),
          if_neg (mt next_eq_zero.mp isFree), run,
          List.countP_cons_of_neg (by simpa using isFree)]

theorem countP_clusters (serves : Serves d) :
    (d.m.clusters.countP fun c => d.m.link d.disk c = 0) = (d.m.freeClusters d.disk).card := by
  have nodup : d.m.clusters.Nodup := List.nodup_range'
  rw [List.countP_eq_length_filter, ← List.toFinset_card_of_nodup (nodup.filter _)]
  congr 1
  ext c
  rw [List.mem_toFinset, List.mem_filter, serves.mem_clusters, mem_freeClusters,
    decide_eq_true_eq]

/-- `fat_count_free_clusters` counts the clusters whose link is zero. -/
theorem fatCountFreeClusters_run (serves : Serves d) :
    ∃ d', fatCountFreeClusters d = some ((d.m.freeClusters d.disk).card, d') ∧ Scanned d d' := by
  have small := serves.clusEnd_lt
  have length : d.m.clusters.length = d.m.clusterCount := by
    rw [serves.clusters_eq, List.length_range']
  obtain ⟨d', run, scanned⟩ := countLoop_run serves d.m.clusters 0
    (fun c mem => (serves.mem_clusters.mp mem).2) (Scanned.refl serves.coherent) (by omega)
  refine ⟨d', ?_, scanned⟩
  rw [Nat.zero_add, countP_clusters serves] at run
  rw [fatCountFreeClusters, Prog.bind_eq_of_run (mount_run d), serves.accepted.valid]
  exact run

end Scans

section Allocating

/-- The result of `fat_count_free_clusters`. -/
def Driver.freeCount (d : Driver) : Option Nat := (fatCountFreeClusters d).map Prod.fst

/-- The first free cluster became the end of a chain of its own, and nothing else changed. -/
structure Taken (c : Nat) (d d' : Driver) : Prop where
  isCluster : d.m.IsCluster c
  isFree : d.m.link d.disk c = 0
  least : ∀ e, d.m.IsCluster e → d.m.link d.disk e = 0 → c ≤ e
  m : d'.m = d.m
  marked : d.m.mark ≤ d.m.link d'.disk c
  others : ∀ e, e ≠ c → d.m.link d'.disk e = d.m.link d.disk e
  outside : ∀ lba, d.m.Outside lba → d'.disk lba = d.disk lba
  copies : d.m.Mirrored d.disk → d.m.Mirrored d'.disk
  counted : ∃ count, d'.freeCount = some count ∧ d.freeCount = some (count + 1)

/-- What `fat_alloc_cluster` is for: its result is 0 on a full disk, which it leaves as it
is, and the first free cluster on any other. -/
def Driver.AllocatorLaw (d : Driver) : Prop :=
  ∃ c d', fatAllocCluster d = some (c, d') ∧ (c = 0 ↔ d.freeCount = some 0) ∧
    (c = 0 → d'.disk = d.disk ∧ d'.m = d.m) ∧ (c ≠ 0 → Taken c d d')

variable {d d' d₁ : Driver} {c : Nat}

theorem freeCount_eq (serves : Serves d) :
    d.freeCount = some (d.m.freeClusters d.disk).card := by
  obtain ⟨d', run, -⟩ := fatCountFreeClusters_run serves
  rw [Driver.freeCount, run]
  rfl

theorem tryCluster_pass (serves : Serves d) (scanned : Scanned d d₁)
    (inRange : c < d.m.clusterCount + 2) (used : d.m.link d.disk c ≠ 0) :
    ∃ d', tryCluster d.m c d₁ = some (none, d') ∧ Scanned d d' := by
  obtain ⟨d', next, scanned'⟩ := scanned.next_run serves inRange
  refine ⟨d', ?_, scanned'⟩
  rw [tryCluster, Prog.bind_eq_of_run next, if_neg (mt next_eq_zero.mp used)]
  rfl

/-- The entry is replaced in the first copy. -/
theorem fatSetEntry_table {bound value : Nat} (served : d.m.Served bound c)
    (run : fatSetEntry c value d = some (true, d')) :
    d'.m = d.m ∧ d'.blk.capacity = d.blk.capacity ∧ d'.fatBufValid = false ∧
      d.m.table d'.disk = d.m.putEntry c value (d.m.table d.disk) := by
  by_cases straddles : d.m.Straddles c
  · have places := served.places
    obtain ⟨-, step, disk⟩ := fatSetEntry_straddled served straddles run
    refine ⟨step.m, step.capacity, step.free rfl, ?_⟩
    rw [disk]
    exact table_straddled (places.spill straddles) ⟨straddles.1, straddles.2.1⟩
      (places.entryIdx_eq.symm.trans straddles.2.2)
  · have written := fatSetEntry_success served (fun spans => absurd spans straddles) run
    exact ⟨written.m, written.capacity, written.free, written.write.table⟩

/-- `fat_set_entry` of a served cluster succeeds. -/
theorem Serves.set_run (serves : Serves d) (inRange : c < d.m.clusterCount + 2) (value : Nat) :
    ∃ d', fatSetEntry c value d = some (true, d') ∧ d'.m = d.m ∧
      d.m.table d'.disk = d.m.putEntry c value (d.m.table d.disk) ∧ Serves d' := by
  have served := serves.served inRange
  obtain ⟨d', run⟩ := fatSetEntry_runs served rfl serves.healthy serves.capacity_lt value
  obtain ⟨m, capacity, free, table⟩ := fatSetEntry_table served run
  have steady := fatSetEntry_steady (m := d.m) c value d ⟨rfl, rfl, serves.healthy⟩ _ d' run
  refine ⟨d', run, m, table, serves.moved m capacity steady.faults fun valid => ?_⟩
  rw [free] at valid
  exact absurd valid Bool.false_ne_true

theorem Serves.link_of_put (serves : Serves d) (inRange : c < d.m.clusterCount + 2) {value : Nat}
    (table : d.m.table d'.disk = d.m.putEntry c value (d.m.table d.disk))
    (small : value < d.m.entryBound) (e : Nat) :
    d.m.link d'.disk e = if e = c then value else d.m.link d.disk e := by
  have covered := serves.covers c inRange
  rw [Mount.link, table]
  by_cases same : e = c
  · rw [if_pos same, same]
    exact entryOf_putEntry_self covered small
  · rw [if_neg same]
    exact entryOf_putEntry_ne covered same

theorem tryCluster_take (serves : Serves d) (two : d.m.numFats = 2) (scanned : Scanned d d₁)
    (inRange : c < d.m.clusterCount + 2) (isFree : d.m.link d.disk c = 0) :
    ∃ d', tryCluster d.m c d₁ = some (some c, d') ∧ d'.m = d.m ∧
      TableWrite d.m c d.m.eoc d.disk d'.disk ∧ Serves d' := by
  obtain ⟨d₂, next, scanned₂⟩ := scanned.next_run serves inRange
  have serves₂ := scanned₂.serves serves
  rw [← scanned₂.m] at inRange two
  obtain ⟨d', set, m, -, serves'⟩ := serves₂.set_run inRange d.m.eoc
  have write := (fatSetEntry_success (serves₂.served inRange) (fun _ => two) set).write
  rw [scanned₂.m, scanned₂.disk] at write
  refine ⟨d', ?_, m.trans scanned₂.m, write, serves'⟩
  rw [tryCluster, Prog.bind_eq_of_run next, if_pos (next_eq_zero.mpr isFree),
    Prog.bind_eq_of_run set]
  rfl

/-- The clusters before one that splits them are those with smaller numbers. -/
theorem mem_before {first count e : Nat} {before after : List Nat}
    (split : List.range' first count = before ++ c :: after)
    (mem : e ∈ List.range' first count) (less : e < c) : e ∈ before := by
  have sorted : (before ++ c :: after).Pairwise (· < ·) := split ▸ List.pairwise_lt_range'
  rw [split, List.mem_append, List.mem_cons] at mem
  rcases mem with mem | rfl | mem
  · exact mem
  · exact absurd less (Nat.lt_irrefl e)
  · have tail := (List.pairwise_append.mp sorted).2.1
    have greater := (List.pairwise_cons.mp tail).1 e mem
    omega

theorem taken_of_write (serves : Serves d) (isCluster : d.m.IsCluster c)
    (isFree : d.m.link d.disk c = 0)
    (least : ∀ e, d.m.IsCluster e → d.m.link d.disk e = 0 → c ≤ e) (m : d'.m = d.m)
    (write : TableWrite d.m c d.m.eoc d.disk d'.disk) (serves' : Serves d') : Taken c d d' := by
  obtain ⟨mark, bound⟩ := serves.accepted.eoc
  have links := serves.link_of_put isCluster.2 write.table bound
  have self : d.m.link d'.disk c = d.m.eoc := (links c).trans (if_pos rfl)
  have others (e : Nat) (ne : e ≠ c) : d.m.link d'.disk e = d.m.link d.disk e :=
    (links e).trans (if_neg ne)
  have marked : d.m.mark ≤ d.m.link d'.disk c := mark.trans self.ge
  have positive : 0 < d.m.mark := mark_pos
  have count : (d.m.freeClusters d'.disk).card + 1 = (d.m.freeClusters d.disk).card :=
    card_freeClusters isCluster isFree (by omega) fun e ne => by rw [others e ne]
  refine ⟨isCluster, isFree, least, m, marked, others, write.outside, write.mirrored,
    (d.m.freeClusters d'.disk).card, ?_, ?_⟩
  · rw [freeCount_eq serves', m]
  · rw [freeCount_eq serves, count]

/-- `fat_alloc_cluster` takes the first of the clusters that `fat_count_free_clusters`
counts. -/
theorem allocatorLaw (serves : Serves d) (two : d.m.numFats = 2) : d.AllocatorLaw := by
  have run_eq : fatAllocCluster d =
      (do let found ← Prog.firstOf (tryCluster d.m) d.m.clusters
          pure (found.getD 0) : DriverM Nat) d := Prog.bind_eq_of_run (mount_run d)
  have pass (e : Nat) (mem : e ∈ d.m.clusters) (used : ¬ d.m.link d.disk e = 0) (d₁ : Driver)
      (scanned : Scanned d d₁) : ∃ d', tryCluster d.m e d₁ = some (none, d') ∧ Scanned d d' :=
    tryCluster_pass serves scanned (serves.mem_clusters.mp mem).2 used
  have freeCount := freeCount_eq serves
  rcases Prog.firstOf_find pass (Scanned.refl serves.coherent) with
    ⟨before, c, after, d₁, split, isFree, used, scanned, search⟩ | ⟨used, d₁, search, scanned⟩
  · have isCluster : d.m.IsCluster c := by
      rw [← serves.mem_clusters, split]
      simp
    obtain ⟨d', run, m, write, serves'⟩ :=
      tryCluster_take serves two scanned isCluster.2 isFree
    have least (e : Nat) (other : d.m.IsCluster e) (free : d.m.link d.disk e = 0) : c ≤ e := by
      by_contra less
      have mem := serves.mem_clusters.mpr other
      rw [serves.clusters_eq] at mem split
      exact used e (mem_before split mem (Nat.not_le.mp less)) free
    have taken := taken_of_write serves isCluster isFree least m write serves'
    have positive := isCluster.1
    obtain ⟨count, -, counted⟩ := taken.counted
    refine ⟨c, d', ?_, ⟨fun zero => by omega, fun none => ?_⟩, fun zero => by omega,
      fun _ => taken⟩
    · rw [run_eq, Prog.bind_eq_of_run (search.trans (Prog.firstOf_some run))]
      rfl
    · rw [none] at counted
      simp at counted
  · have none : d.m.freeClusters d.disk = ∅ := by
      ext e
      rw [mem_freeClusters]
      constructor
      · exact fun free => absurd free.2 (used e (serves.mem_clusters.mpr free.1))
      · simp
    refine ⟨0, d₁, ?_, ⟨fun _ => ?_, fun _ => rfl⟩, fun _ => ⟨scanned.disk, scanned.m⟩,
      fun positive => absurd rfl positive⟩
    · rw [run_eq, Prog.bind_eq_of_run search]
      rfl
    · rw [freeCount, none]
      rfl

/-- A driver that has mounted the empty volume with two copies of the table. -/
def floppyDriver : Driver := { Driver.initial (floppy 2) 400 with m := floppyMount 2 }

theorem floppyDriver_serves : Serves floppyDriver := by
  have volume : (floppyMount 2).Volume := floppyMount_volume 2 (by decide +kernel)
  refine ⟨?_, volume.covers, by decide, by decide, rfl, fun valid => ?_⟩
  · obtain ⟨d₀, d₁, run, same⟩ := volume.accepted
    exact ⟨d₀, d₁, run, same⟩
  · exact absurd valid Bool.false_ne_true

theorem allocatorLaw_floppy :
    floppyDriver.AllocatorLaw ∧ (fatAllocCluster floppyDriver).map Prod.fst = some 2 :=
  ⟨allocatorLaw floppyDriver_serves rfl, by decide +kernel⟩

end Allocating

end Ncd15.Fat
