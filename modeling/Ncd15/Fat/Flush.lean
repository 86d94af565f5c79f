import Ncd15.Fat.RecordWrite
import Ncd15.Fat.SharedBufferRuns

/-!
# Writing the directory entry back

`fat_fflush` trusts the place that the handle carries.  A created handle carries
the place of its entry; `fat_fopen` leaves in the handle what was there before.
-/

namespace Ncd15.Fat

open Ncd15.Library

section Ghosts

/-- The driver without the record of what went wrong. -/
def Driver.clean (d : Driver) : Driver :=
  { d with staleRead := false, lostUpdate := false }

/-- A program that the record of what went wrong does not influence. -/
abbrev Blind {α : Type} (f : DriverM α) : Prop := Unread Driver.clean f

theorem clean_clean (d : Driver) : d.clean.clean = d.clean := rfl

theorem clean_noteRead (d : Driver) (lba : Nat) : (d.noteRead lba).clean = d.clean := rfl

theorem pure_blind {α : Type} (a : α) : Blind (pure a : DriverM α) :=
  .pure a clean_clean

theorem mount_blind : Blind mount := fun _ => rfl

theorem wbuf_blind : Blind wbuf := fun _ => rfl

theorem invalidate_blind : Blind invalidate := fun _ => rfl

theorem editWbuf_blind (edit : Sector → Sector) : Blind (editWbuf edit) := fun _ => rfl

theorem noteUpdate_blind (lba : Nat) (edit : Sector → Sector) : Blind (noteUpdate lba edit) :=
  fun _ => rfl

theorem readFatSec_blind (lba : Nat) : Blind (readFatSec lba) := by
  intro d
  by_cases hit : d.fatBufValid ∧ d.fatBufLba = lba
  · have hit' : d.clean.fatBufValid ∧ d.clean.fatBufLba = lba := hit
    rw [readFatSec, readFatSec, if_pos hit', if_pos hit]
    simp only [Option.map_some, Prod.map_apply, clean_noteRead, clean_clean]
  · have miss : ¬ (d.clean.fatBufValid ∧ d.clean.fatBufLba = lba) := hit
    rw [readFatSec, readFatSec, if_neg miss, if_neg hit, apply_ite (Option.map _),
      apply_ite (Option.map _)]
    simp only [Option.map_some, Prod.map_apply, clean_noteRead, clean_clean]
    rfl

theorem loadWbuf_blind (lba : Nat) : Blind (loadWbuf lba) := by
  intro d
  rw [loadWbuf, loadWbuf, apply_ite (Option.map _), apply_ite (Option.map _)]
  rfl

theorem writeWbuf_blind (lba : Nat) : Blind (writeWbuf lba) := by
  intro d
  rw [writeWbuf, writeWbuf, apply_ite (Option.map _), apply_ite (Option.map _),
    apply_ite (Option.map _), apply_ite (Option.map _)]
  rfl

theorem updateSec_blind (lba : Nat) (edit : Sector → Sector) : Blind (updateSec lba edit) :=
  .bind (noteUpdate_blind lba edit) fun _ => .bind (editWbuf_blind edit) fun _ =>
    writeWbuf_blind lba

/-- The reads of `fat_next_clus`. -/
theorem readFatSec_then_blind {lba : Nat} {α : Type} {failed : α} {next : DriverM α}
    (rest : Blind next) : Blind (do if !(← readFatSec lba) then pure failed else next) :=
  .bind (readFatSec_blind lba) fun _ => .ite (pure_blind _) rest

theorem loadWbuf_then_blind {lba : Nat} {α : Type} {failed : α} {next : DriverM α}
    (rest : Blind next) : Blind (do if !(← loadWbuf lba) then pure failed else next) :=
  .bind (loadWbuf_blind lba) fun _ => .ite (pure_blind _) rest

theorem updateSec_then_blind {lba : Nat} {edit : Sector → Sector} {α : Type} {failed : α}
    {next : DriverM α} (rest : Blind next) :
    Blind (do if !(← updateSec lba edit) then pure failed else next) :=
  .bind (updateSec_blind lba edit) fun _ => .ite (pure_blind _) rest

theorem fatNextClus_blind (c : Nat) : Blind (fatNextClus c) := by
  have final (f : Sector → Nat) : Blind (do pure (f (← wbuf))) :=
    .bind wbuf_blind fun _ => pure_blind _
  have narrow (m : Mount) : Blind (fatNextClus12 m c) := by
    refine readFatSec_then_blind (.ite ?_ (final _))
    refine readFatSec_then_blind (readFatSec_then_blind (.bind wbuf_blind fun _ => ?_))
    exact readFatSec_then_blind (final _)
  refine .bind mount_blind fun m => ?_
  cases m.type with
  | none => exact narrow m
  | fat12 => exact narrow m
  | fat16 => exact readFatSec_then_blind (final _)
  | fat32 => exact readFatSec_then_blind (final _)

theorem fatSetEntry_blind (c value : Nat) : Blind (fatSetEntry c value) := by
  refine .bind mount_blind fun m => .bind invalidate_blind fun _ => ?_
  refine loadWbuf_then_blind (.ite ?_ (updateSec_then_blind ?_))
  · refine .bind wbuf_blind fun buf => ?_
    refine updateSec_then_blind (loadWbuf_then_blind (updateSec_then_blind ?_))
    exact loadWbuf_then_blind (updateSec_then_blind (loadWbuf_then_blind (updateSec_blind _ _)))
  · refine .bind (.firstOf clean_clean (fun i => ?_) _) fun _ => pure_blind _
    exact .bind (writeWbuf_blind _) fun _ => pure_blind _

theorem fatAllocCluster_blind : Blind fatAllocCluster := by
  refine .bind mount_blind fun m => ?_
  refine .bind (.firstOf clean_clean (fun c => ?_) _) fun _ => pure_blind _
  refine .bind (fatNextClus_blind c) fun nxt => .ite ?_ (pure_blind _)
  exact .bind (fatSetEntry_blind c _) fun _ => .ite (pure_blind _) (pure_blind _)

theorem modifyEntry_blind (slot : Slot) (edit : Nat → Sector → Sector) :
    Blind (modifyEntry slot edit) :=
  loadWbuf_then_blind (updateSec_blind _ _)

theorem attachFirst_blind (fp : FatFile) (written : Int) : Blind (attachFirst fp written) := by
  refine .ite (.bind fatAllocCluster_blind fun nc => .ite (pure_blind _) ?_) (pure_blind _)
  exact .bind (modifyEntry_blind _ _) fun _ => .ite (pure_blind _) (pure_blind _)

theorem nextForWrite_blind (fp : FatFile) (written : Int) : Blind (nextForWrite fp written) := by
  refine .bind (fatNextClus_blind _) fun nxt => .ite ?_ (pure_blind _)
  refine .bind fatAllocCluster_blind fun nc => .ite (pure_blind _) ?_
  exact .bind (fatSetEntry_blind _ _) fun _ => .ite (pure_blind _) (pure_blind _)

theorem fwriteRound_blind (m : Mount) (total : Nat) (s : WriteLoop) :
    Blind (fwriteRound m total s) := by
  refine .ite (pure_blind _) (.bind (attachFirst_blind _ _) fun attached => ?_)
  cases attached with
  | error result => exact pure_blind _
  | ok fp =>
      refine loadWbuf_then_blind (updateSec_then_blind (.ite ?_ (pure_blind _)))
      refine .bind (nextForWrite_blind _ _) fun next => ?_
      cases next <;> exact pure_blind _

theorem fatFwrite_blind (rounds : Nat) (fp : FatFile) (bytes : List UInt8) :
    Blind (fatFwrite rounds fp bytes) := by
  refine .bind mount_blind fun m => .ite (pure_blind _) (.bind invalidate_blind fun _ => ?_)
  exact .loop clean_clean (fwriteRound_blind m bytes.length) rounds _

end Ghosts

section Steady

/-- The volume stays mounted on a device that does not fail. -/
structure Steady (m : Mount) (capacity : Nat) (d : Driver) : Prop where
  here : d.m = m
  size : d.blk.capacity = capacity
  faults : d.blk.faults = []

variable {m : Mount} {capacity : Nat}

/-- The reads of the table change neither the device nor the mount data. -/
theorem readFatSec_device (b : BlkDev) (m : Mount) :
    KeptByReads fun d => d.blk = b ∧ d.m = m := by
  rintro lba d ⟨rfl, rfl⟩ ok d' run
  unfold readFatSec at run
  split at run
  · obtain ⟨-, rfl⟩ := Prod.mk.inj (Option.some.inj run)
    exact ⟨rfl, rfl⟩
  split at run
  · obtain ⟨-, rfl⟩ := Prod.mk.inj (Option.some.inj run)
    exact ⟨rfl, rfl⟩
  · obtain ⟨-, rfl⟩ := Prod.mk.inj (Option.some.inj run)
    exact ⟨rfl, rfl⟩

theorem readFatSec_steady : KeptByReads (Steady m capacity) := by
  intro lba d steady ok d' run
  obtain ⟨blk, here⟩ := readFatSec_device d.blk d.m lba d ⟨rfl, rfl⟩ ok d' run
  exact ⟨here.trans steady.here, by rw [blk, steady.size], by rw [blk, steady.faults]⟩

theorem fatNextClus_steady (c : Nat) :
    Triple (Steady m capacity) (fatNextClus c) fun _ => Steady m capacity :=
  fatNextClus_keeps readFatSec_steady c

theorem invalidate_steady :
    Triple (Steady m capacity) invalidate fun _ => Steady m capacity := by
  rintro d ⟨rfl, rfl, faults⟩ u d' ⟨⟩
  exact ⟨rfl, rfl, faults⟩

theorem editWbuf_steady (edit : Sector → Sector) :
    Triple (Steady m capacity) (editWbuf edit) fun _ => Steady m capacity := by
  rintro d ⟨rfl, rfl, faults⟩ u d' ⟨⟩
  exact ⟨rfl, rfl, faults⟩

theorem noteUpdate_steady (lba : Nat) (edit : Sector → Sector) :
    Triple (Steady m capacity) (noteUpdate lba edit) fun _ => Steady m capacity := by
  rintro d ⟨rfl, rfl, faults⟩ u d' ⟨⟩
  exact ⟨rfl, rfl, faults⟩

theorem loadWbuf_steady (lba : Nat) :
    Triple (Steady m capacity) (loadWbuf lba) fun _ => Steady m capacity := by
  rintro d ⟨rfl, rfl, faults⟩ ok d' run
  unfold loadWbuf at run
  split at run
  · obtain ⟨-, rfl⟩ := Prod.mk.inj (Option.some.inj run)
    exact ⟨rfl, rfl, faults⟩
  · obtain ⟨-, rfl⟩ := Prod.mk.inj (Option.some.inj run)
    exact ⟨rfl, rfl, faults⟩

theorem writeWbuf_steady (lba : Nat) :
    Triple (Steady m capacity) (writeWbuf lba) fun _ => Steady m capacity := by
  rintro d ⟨rfl, rfl, faults⟩ ok d' run
  unfold writeWbuf at run
  split at run
  · obtain ⟨-, rfl⟩ := Prod.mk.inj (Option.some.inj run)
    exact ⟨rfl, rfl, faults⟩
  split at run
  · obtain ⟨-, rfl⟩ := Prod.mk.inj (Option.some.inj run)
    exact ⟨rfl, rfl, by simp [BlkDev.skip, faults]⟩
  · obtain ⟨-, rfl⟩ := Prod.mk.inj (Option.some.inj run)
    exact ⟨rfl, rfl, by simp [Driver.stored, BlkDev.put, faults]⟩

theorem updateSec_steady (lba : Nat) (edit : Sector → Sector) :
    Triple (Steady m capacity) (updateSec lba edit) fun _ => Steady m capacity :=
  Triple.bind (noteUpdate_steady lba edit) fun _ =>
    Triple.bind (editWbuf_steady edit) fun _ => writeWbuf_steady lba

section Then

variable {α : Type} {failed : α} {next : DriverM α}
  (rest : Triple (Steady m capacity) next fun _ => Steady m capacity)

include rest

theorem loadWbuf_then_steady (lba : Nat) : Triple (Steady m capacity)
    (do if !(← loadWbuf lba) then pure failed else next) fun _ => Steady m capacity :=
  Triple.bind (loadWbuf_steady lba) fun _ =>
    Triple.ite (fun _ => Triple.pure fun _ => id) fun _ => rest

theorem updateSec_then_steady (lba : Nat) (edit : Sector → Sector) : Triple (Steady m capacity)
    (do if !(← updateSec lba edit) then pure failed else next) fun _ => Steady m capacity :=
  Triple.bind (updateSec_steady lba edit) fun _ =>
    Triple.ite (fun _ => Triple.pure fun _ => id) fun _ => rest

end Then

theorem modifyEntry_steady (slot : Slot) (edit : Nat → Sector → Sector) :
    Triple (Steady m capacity) (modifyEntry slot edit) fun _ => Steady m capacity :=
  loadWbuf_then_steady (updateSec_steady _ _) _

theorem fatSetEntry_steady (c value : Nat) :
    Triple (Steady m capacity) (fatSetEntry c value) fun _ => Steady m capacity := by
  refine Triple.bind (mount_keeps _) fun m' => Triple.bind invalidate_steady fun _ => ?_
  refine loadWbuf_then_steady (Triple.ite (fun _ => ?_) fun _ => ?_) _
  · refine Triple.bind (wbuf_keeps _) fun buf => ?_
    refine updateSec_then_steady (loadWbuf_then_steady ?_ _) _ _
    refine updateSec_then_steady (loadWbuf_then_steady ?_ _) _ _
    exact updateSec_then_steady (loadWbuf_then_steady (updateSec_steady _ _) _) _ _
  · refine updateSec_then_steady ?_ _ _
    refine Triple.bind (Triple.firstOf_keeps _ fun i _ => ?_) fun _ => Triple.pure fun _ => id
    exact Triple.bind (writeWbuf_steady _) fun _ => Triple.pure fun _ => id

theorem fatAllocCluster_steady :
    Triple (Steady m capacity) fatAllocCluster fun _ => Steady m capacity := by
  refine Triple.bind (mount_keeps _) fun m' => ?_
  refine Triple.bind (Triple.firstOf_keeps _ fun c _ => ?_) fun _ => Triple.pure fun _ => id
  refine Triple.bind (fatNextClus_steady c) fun nxt => ?_
  refine Triple.ite (fun _ => ?_) fun _ => Triple.pure fun _ => id
  refine Triple.bind (fatSetEntry_steady c _) fun _ => ?_
  exact Triple.ite (fun _ => Triple.pure fun _ => id) fun _ => Triple.pure fun _ => id

/-- `fat_alloc_cluster` that finds nothing leaves the disk, whatever went wrong
before. -/
theorem fatAllocCluster_cases {d d' : Driver} {nc : Nat} (sane : m.Sane capacity)
    (steady : Steady m capacity d) (idle : d.fatBufValid = false)
    (run : fatAllocCluster d = some (nc, d')) :
    (nc = 0 ∧ d'.disk = d.disk) ∨ (nc ≠ 0 ∧ nc < 2 ^ 32) := by
  obtain ⟨rfl, rfl, faults⟩ := steady
  have ready : Ready d.clean :=
    ⟨Idle.good ⟨⟨⟨rfl, rfl⟩, faults⟩, idle⟩, sane⟩
  obtain ⟨t, cleanRun, left⟩ := fatAllocCluster_blind.run run
  have disk : d'.disk = t.disk := (congrArg Driver.disk left).symm
  rcases fatAllocCluster_run ready with ⟨c, t', run', alloc⟩ | ⟨-, t', run', step⟩
  · obtain ⟨rfl, rfl⟩ := Prod.mk.inj (Option.some.inj (cleanRun.symm.trans run'))
    have isCluster : d.m.IsCluster nc := alloc.isCluster
    have count := sane.count_le
    exact .inr ⟨by have := isCluster.1; omega, by have := isCluster.2; omega⟩
  · obtain ⟨rfl, rfl⟩ := Prod.mk.inj (Option.some.inj (cleanRun.symm.trans run'))
    exact .inl ⟨rfl, disk.trans step.disk⟩

end Steady

section Handles

/-- An open handle whose entry is at `slot`. -/
structure Held (m : Mount) (capacity : Nat) (slot : Slot) (fp : FatFile) (d : Driver) : Prop where
  steady : Steady m capacity d
  inUse : fp.inUse = true
  place : fp.slot = slot
  size_lt : fp.fileSize < 2 ^ 32
  first_lt : fp.firstClus < 2 ^ 32
  unattached : fp.firstClus = 0 → firstClusAt (d.disk slot.lba) slot.off = 0

variable {m : Mount} {capacity : Nat} {slot : Slot} {fp : FatFile}

/-- Once the file has a cluster, only the mount data and the device matter. -/
theorem Held.moved {d d' : Driver} (held : Held m capacity slot fp d)
    (attached : fp.firstClus ≠ 0) (steady : Steady m capacity d') : Held m capacity slot fp d' :=
  ⟨steady, held.inUse, held.place, held.size_lt, held.first_lt, fun none => absurd none attached⟩

theorem readFatSec_held : KeptByReads (Held m capacity slot fp) := by
  intro lba d held ok d' run
  have steady := readFatSec_steady lba d held.steady ok d' run
  obtain ⟨blk, -⟩ := readFatSec_device d.blk d.m lba d ⟨rfl, rfl⟩ ok d' run
  exact ⟨steady, held.inUse, held.place, held.size_lt, held.first_lt,
    fun none => by rw [Driver.disk, blk]; exact held.unattached none⟩

theorem skipClusters_held (skip : Nat) (fp : FatFile) :
    Triple (Held m capacity slot fp) (skipClusters skip fp)
      fun result => Held m capacity slot result.2 := by
  induction skip generalizing fp with
  | zero => exact Triple.pure fun _ => id
  | succ skip ih =>
      refine Triple.bind (fatNextClus_keeps readFatSec_held _) fun nxt => ?_
      refine Triple.ite (fun _ => Triple.pure fun _ => id) fun _ => ?_
      exact (ih { fp with curClus := nxt }).strengthen fun d held =>
        ⟨held.steady, held.inUse, held.place, held.size_lt, held.first_lt, held.unattached⟩

theorem fatFseek_held (pos : Nat) :
    Triple (Held m capacity slot fp) (fatFseek fp pos)
      fun result => Held m capacity slot result.2 := by
  refine Triple.bind (mount_keeps _) fun m' => ?_
  refine Triple.ite (fun _ => Triple.pure fun _ => id) fun _ => ?_
  exact (skipClusters_held _ _).strengthen fun d held =>
    ⟨held.steady, held.inUse, held.place, held.size_lt, held.first_lt, held.unattached⟩

/-- Between two rounds of `fat_fwrite`. -/
def Writing (m : Mount) (capacity : Nat) (slot : Slot) (fp : FatFile) (d : Driver) : Prop :=
  Held m capacity slot fp d ∧ (fp.firstClus = 0 → d.fatBufValid = false)

/-- The handle after the first cluster was attached, or the early return. -/
def AttachedOr (m : Mount) (capacity : Nat) (slot : Slot) :
    Except (Int × FatFile) FatFile → Driver → Prop
  | .error result, d => Held m capacity slot result.2 d
  | .ok fp, d => Held m capacity slot fp d ∧ fp.firstClus ≠ 0

theorem attachFirst_held (sane : m.Sane capacity) (written : Int) :
    Triple (Writing m capacity slot fp) (attachFirst fp written)
      (AttachedOr m capacity slot) := by
  refine Triple.ite (fun unattached => ?_) fun attached =>
    Triple.pure fun d writing => ⟨writing.1, attached⟩
  rintro d ⟨held, idle⟩ result d' run
  obtain ⟨nc, d₁, alloc, run⟩ := Prog.bind_eq_some run
  have steady₁ := fatAllocCluster_steady d held.steady nc d₁ alloc
  rcases fatAllocCluster_cases sane held.steady (idle unattached) alloc with
    ⟨rfl, disk⟩ | ⟨found, small⟩
  · obtain ⟨rfl, rfl⟩ := Prod.mk.inj (Option.some.inj run)
    exact ⟨steady₁, held.inUse, held.place, held.size_lt, held.first_lt,
      fun none => by rw [disk]; exact held.unattached none⟩
  · rw [if_neg found] at run
    obtain ⟨ok, d₂, edited, run⟩ := Prog.bind_eq_some run
    have steady₂ := modifyEntry_steady _ _ d₁ steady₁ ok d₂ edited
    have attached : Held m capacity slot { fp with firstClus := nc, curClus := nc } d₂ :=
      ⟨steady₂, held.inUse, held.place, held.size_lt, small, fun none => absurd none found⟩
    cases ok with
    | false =>
        obtain ⟨rfl, rfl⟩ := Prod.mk.inj (Option.some.inj run)
        exact attached
    | true =>
        obtain ⟨rfl, rfl⟩ := Prod.mk.inj (Option.some.inj run)
        exact ⟨attached, found⟩

theorem nextForWrite_held (attached : fp.firstClus ≠ 0) (written : Int) :
    Triple (Held m capacity slot fp) (nextForWrite fp written) (AttachedOr m capacity slot) := by
  have moved (clus : Nat) (d : Driver) (held : Held m capacity slot fp d) :
      Held m capacity slot { fp with curClus := clus } d :=
    ⟨held.steady, held.inUse, held.place, held.size_lt, held.first_lt, held.unattached⟩
  have keeps {α : Type} {f : DriverM α}
      (steady : Triple (Steady m capacity) f fun _ => Steady m capacity) :
      Triple (Held m capacity slot fp) f fun _ => Held m capacity slot fp :=
    fun d held a d' run => held.moved attached (steady d held.steady a d' run)
  refine Triple.bind (keeps (fatNextClus_steady _)) fun nxt => ?_
  refine Triple.ite (fun _ => ?_) fun _ =>
    Triple.pure fun d held => ⟨moved nxt d held, attached⟩
  refine Triple.bind (keeps fatAllocCluster_steady) fun nc => ?_
  refine Triple.ite (fun _ => Triple.pure fun _ => id) fun _ => ?_
  refine Triple.bind (keeps (fatSetEntry_steady _ _)) fun ok => ?_
  exact Triple.ite (fun _ => Triple.pure fun _ => id) fun _ =>
    Triple.pure fun d held => ⟨moved nc d held, attached⟩

theorem fwriteRound_held (sane : m.Sane capacity) (m' : Mount) (total : Nat) (s : WriteLoop) :
    Triple (Writing m capacity slot s.fp) (fwriteRound m' total s)
      (Sum.elim (fun s => Writing m capacity slot s.fp)
        fun result => Held m capacity slot result.2) := by
  refine Triple.ite (fun _ => Triple.pure fun d writing => writing.1) fun _ => ?_
  refine Triple.bind (attachFirst_held sane _) fun attached => ?_
  cases attached with
  | error result => exact Triple.pure fun _ => id
  | ok fp =>
      refine Triple.assuming (fun d post => post.2) fun attached => ?_
      have keeps {α : Type} {f : DriverM α}
          (steady : Triple (Steady m capacity) f fun _ => Steady m capacity) :
          Triple (Held m capacity slot fp) f fun _ => Held m capacity slot fp :=
        fun d held a d' run => held.moved attached (steady d held.steady a d' run)
      refine Triple.bind ((keeps (loadWbuf_steady _)).strengthen fun d post => post.1) fun ok => ?_
      refine Triple.ite (fun _ => Triple.pure fun _ => id) fun _ => ?_
      refine Triple.bind (keeps (updateSec_steady _ _)) fun ok => ?_
      refine Triple.ite (fun _ => Triple.pure fun _ => id) fun _ => ?_
      have grown (pos : Nat) (d : Driver) (held : Held m capacity slot fp d) :
          Held m capacity slot { fp with
            curPos := u32 pos, fileSize := max fp.fileSize (u32 pos) } d :=
        ⟨held.steady, held.inUse, held.place, max_lt held.size_lt (u32_lt pos), held.first_lt,
          held.unattached⟩
      refine Triple.ite (fun _ => ?_) fun _ =>
        Triple.pure fun d held => ⟨grown _ d held, fun none => absurd none attached⟩
      refine Triple.bind ((nextForWrite_held ?_ _).strengthen fun d => grown _ d)
        fun next => ?_
      · exact attached
      cases next with
      | error result => exact Triple.pure fun _ => id
      | ok fp' => exact Triple.pure fun d post => ⟨post.1, fun none => absurd none post.2⟩

theorem fatFwrite_held (sane : m.Sane capacity) (rounds : Nat) (bytes : List UInt8) :
    Triple (Held m capacity slot fp) (fatFwrite rounds fp bytes)
      fun result => Held m capacity slot result.2 := by
  refine Triple.bind (mount_keeps _) fun m' => ?_
  refine Triple.ite (fun _ => Triple.pure fun _ => id) fun _ => ?_
  refine Triple.bind (Q := fun _ => Writing m capacity slot fp) ?_ fun _ =>
    Triple.loop (I := fun s => Writing m capacity slot s.fp)
      (fun s => fwriteRound_held sane m' _ s) rounds { fp, rest := bytes }
  rintro d held u d' ⟨⟩
  exact ⟨⟨⟨held.steady.here, held.steady.size, held.steady.faults⟩, held.inUse, held.place,
    held.size_lt, held.first_lt, held.unattached⟩, fun _ => rfl⟩

/-- What a program does with an open handle. -/
inductive FileOp
  | seek (pos : Nat)
  | write (bytes : List UInt8)

/-- The operations one after the other, their results not looked at. -/
def runOps (rounds : Nat) : List FileOp → FatFile → DriverM FatFile
  | [], fp => pure fp
  | .seek pos :: ops, fp => do
      let (_, fp) ← fatFseek fp pos
      runOps rounds ops fp
  | .write bytes :: ops, fp => do
      let (_, fp) ← fatFwrite rounds fp bytes
      runOps rounds ops fp

theorem runOps_held (sane : m.Sane capacity) (rounds : Nat) (ops : List FileOp) :
    Triple (Held m capacity slot fp) (runOps rounds ops fp)
      fun fp => Held m capacity slot fp := by
  induction ops generalizing fp with
  | nil => exact Triple.pure fun _ => id
  | cons op ops ih =>
      cases op with
      | seek pos => exact Triple.bind (fatFseek_held pos) fun _ => ih
      | write bytes => exact Triple.bind (fatFwrite_held sane rounds bytes) fun _ => ih

end Handles

section Flush

variable {m : Mount} {capacity : Nat} {slot : Slot} {fp : FatFile} {d : Driver}

/-- `fat_fflush` writes the size and the first cluster of the handle into the entry
at `slot` and changes no other byte of the disk. -/
def FlushesTo (slot : Slot) (fp : FatFile) (d : Driver) : Prop :=
  ∃ d', fatFflush fp d = some (0, d') ∧
    d'.disk = Function.update d.disk slot.lba
      (editFirstClus slot.off fp.firstClus (editSize slot.off fp.fileSize (d.disk slot.lba))) ∧
    firstClusAt (d'.disk slot.lba) slot.off = fp.firstClus ∧
    (d'.disk slot.lba).loadLe (slot.off + 28) 4 = fp.fileSize

theorem modifyEntry_disk (faults : d.blk.faults = []) (has : d.blk.Has slot.lba)
    (edit : Nat → Sector → Sector) :
    ∃ d', modifyEntry slot edit d = some (true, d') ∧
      d'.disk = Function.update d.disk slot.lba (edit slot.off (d.disk slot.lba)) := by
  have sound : ¬ d.blk.Faulty := by simp [BlkDev.Faulty, faults]
  rw [modifyEntry, loadWbuf_then_run has]
  exact ⟨_, (if_neg (not_not.mpr has)).trans (if_neg sound), rfl⟩

theorem modifyEntry_has {edit : Nat → Sector → Sector} {d' : Driver}
    (run : modifyEntry slot edit d = some (true, d')) : d.blk.Has slot.lba := by
  by_contra missing
  have failed : modifyEntry slot edit d = some (false, d) := by
    have unread : loadWbuf slot.lba d = some (false, d) := if_neg missing
    rw [modifyEntry, Prog.bind_eq_of_run unread]
    rfl
  rw [failed] at run
  exact Bool.noConfusion (Prod.mk.inj (Option.some.inj run)).1

/-- An edit that is 0 already changes nothing. -/
theorem editFirstClus_zero {s : Sector} {off : Nat} (zero : firstClusAt s off = 0) :
    editFirstClus off 0 s = s := by
  unfold firstClusAt at zero
  have low : s.loadLe (off + 26) 2 = 0 := by omega
  have high : s.loadLe (off + 20) 2 = 0 := by omega
  have same : s.blit (off + 26) (Buffer.leBytes 2 0) = s := by
    rw [← low, Buffer.leBytes_loadLe, Buffer.blit_slice_self]
  rw [editFirstClus, same, Nat.zero_div, ← high, Buffer.leBytes_loadLe, Buffer.blit_slice_self]

theorem editSize_firstClusAt {s : Sector} {off : Nat} (size : Nat) :
    firstClusAt (editSize off size s) off = firstClusAt s off := by
  unfold firstClusAt editSize
  rw [Buffer.loadLe_blit_of_disjoint _ (by omega), Buffer.loadLe_blit_of_disjoint _ (by omega)]

theorem Held.editFlush_eq (held : Held m capacity slot fp d) :
    fp.editFlush slot.off (d.disk slot.lba) =
      editFirstClus slot.off fp.firstClus (editSize slot.off fp.fileSize (d.disk slot.lba)) := by
  rw [FatFile.editFlush]
  split
  · rfl
  · rename_i none
    have zero := held.unattached (not_not.mp none)
    rw [← editSize_firstClusAt fp.fileSize] at zero
    rw [not_not.mp none, editFirstClus_zero zero]

theorem Held.flushesTo (held : Held m capacity slot fp d) (valid : m.valid = true)
    (off_le : slot.off ≤ 480) (has : d.blk.Has slot.lba) : FlushesTo slot fp d := by
  have opened : ¬ ((!fp.inUse) = true ∨ (!d.m.valid) = true) := by
    simp [held.inUse, held.steady.here, valid]
  have faults : d.invalidated.blk.faults = [] := held.steady.faults
  obtain ⟨d', run, disk⟩ := modifyEntry_disk faults has fp.editFlush
  have entry : EntryIs (editFirstClus slot.off fp.firstClus
      (editSize slot.off fp.fileSize (d.disk slot.lba))) slot.off
      ((d.disk slot.lba).slice slot.off 11) fp.firstClus fp.fileSize :=
    (EntryIs.withSize ⟨rfl, rfl, rfl⟩ off_le held.size_lt).withFirst off_le held.first_lt
  have written : d'.disk = Function.update d.disk slot.lba (editFirstClus slot.off fp.firstClus
      (editSize slot.off fp.fileSize (d.disk slot.lba))) := by
    rw [disk, ← held.editFlush_eq]
    rfl
  refine ⟨d', ?_, written, ?_, ?_⟩
  · rw [fatFflush, Prog.bind_eq_of_run (mount_run d), if_neg opened,
      Prog.bind_eq_of_run (invalidate_run d), held.place]
    exact Prog.bind_eq_of_run run
  · rw [written, Function.update_self]
    exact entry.first
  · rw [written, Function.update_self]
    exact entry.size

end Flush

section Opening

/-- The walk of `fat_fopen`, with the place of the entry that it stops at. -/
def walkSlot (rounds : Nat) : List (List UInt8 × Bool) → DirIter → DriverM (Option Slot)
  | [], _ => pure none
  | (comp, more) :: rest, it => do
      match ← findEntryInDir rounds it comp with
      | (none, _) => pure none
      | (some found, it) =>
          if more then
            if !found.de.isDir then pure none
            else do walkSlot rounds rest ((← mount).diropenClus found.de.firstClus)
          else if found.de.isDir then pure none
          else pure (some it.slot)

/-- The place of the entry that `fat_fopen` opens. -/
def fopenSlot (rounds : Nat) (path : List UInt8) : DriverM (Option Slot) := do
  let m ← mount
  if !m.valid then pure none
  else walkSlot rounds (components path) m.diropenRoot

/-- Between two rounds of a lookup in any directory. -/
structure Scanning (b : BlkDev) (m : Mount) (it : DirIter) (d : Driver) : Prop where
  blk : d.blk = b
  here : d.m = m
  idx : it.entIdx ≤ 16
  cached : it.bufLbaValid = true → it.buf = b.sec it.bufLba ∧ b.Has it.bufLba

/-- An entry that a lookup has returned is on the disk at its place. -/
structure EntryAt (b : BlkDev) (de : Dirent) (slot : Slot) : Prop where
  entry : de = Dirent.ofSector (b.sec slot.lba) slot.off
  off_le : slot.off ≤ 480
  has : b.Has slot.lba

variable {b : BlkDev} {m : Mount} {it : DirIter}

/-- What a round of a lookup leaves. -/
def Stop (b : BlkDev) (m : Mount) : DirIter ⊕ (DirResult × DirIter) → Driver → Prop :=
  Sum.elim (Scanning b m) fun result d =>
    Scanning b m result.2 d ∧ ∀ found, result.1 = .ok found → EntryAt b found.de result.2.slot

theorem Scanning.failed {d : Driver} (scanning : Scanning b m it d) (code : Int) :
    Stop b m (.inr (.error code, it)) d := ⟨scanning, nofun⟩

theorem Scanning.moved {d : Driver} (scanning : Scanning b m it d) (clus lba : Nat) :
    Scanning b m (it.atSector clus lba) d :=
  ⟨scanning.blk, scanning.here, Nat.zero_le _, nofun⟩

theorem readFatSec_scanning : KeptByReads (Scanning b m it) := by
  intro lba d scanning ok d' run
  obtain ⟨blk, here⟩ :=
    readFatSec_device b m lba d ⟨scanning.blk, scanning.here⟩ ok d' run
  exact ⟨blk, here, scanning.idx, scanning.cached⟩

theorem dirLoadSector_scanning (it : DirIter) :
    Triple (Scanning b m it) (dirLoadSector it) fun loaded d => Scanning b m it d ∧
      ∀ it', loaded = some it' → Scanning b m it' d ∧ it'.bufLbaValid = true ∧
        it'.bufLba = it'.curLba := by
  intro d scanning loaded d' run
  obtain ⟨rfl, rfl, idx, cached⟩ := scanning
  unfold dirLoadSector at run
  split at run
  · rename_i hit
    obtain ⟨rfl, rfl⟩ := Prod.mk.inj (Option.some.inj run)
    refine ⟨⟨rfl, rfl, idx, cached⟩, ?_⟩
    rintro it' ⟨⟩
    exact ⟨⟨rfl, rfl, idx, cached⟩, hit.1, hit.2⟩
  split at run
  · rename_i has
    obtain ⟨rfl, rfl⟩ := Prod.mk.inj (Option.some.inj run)
    refine ⟨⟨rfl, rfl, idx, cached⟩, ?_⟩
    rintro it' ⟨⟩
    exact ⟨⟨rfl, rfl, idx, fun _ => ⟨rfl, has⟩⟩, rfl, rfl⟩
  · obtain ⟨rfl, rfl⟩ := Prod.mk.inj (Option.some.inj run)
    exact ⟨⟨rfl, rfl, idx, cached⟩, nofun⟩

theorem dirAdvance_scanning (it : DirIter) :
    Triple (Scanning b m it) (dirAdvance it) (Stop b m) := by
  refine Triple.bind (mount_keeps _) fun m' => Triple.ite (fun _ => ?_) fun _ => ?_
  · refine Triple.ite (fun _ => Triple.pure fun d scanning => scanning.failed 1) fun _ => ?_
    exact Triple.pure fun d scanning => scanning.moved _ _
  refine Triple.ite (fun _ => Triple.pure fun d scanning => scanning.moved _ _) fun _ => ?_
  refine Triple.bind (fatNextClus_keeps readFatSec_scanning _) fun nxt => ?_
  refine Triple.ite (fun _ => Triple.pure fun d scanning => scanning.failed 1) fun _ => ?_
  exact Triple.pure fun d scanning => scanning.moved _ _

theorem entry_scanning {d : Driver} (scanning : Scanning b m it d)
    (loaded : it.bufLbaValid = true) (current : it.bufLba = it.curLba) (more : it.entIdx < 16) :
    Stop b m it.entry d := by
  have passed (lfn : LfnBuf) : Scanning b m { it with entIdx := it.entIdx + 1, lfn } d :=
    ⟨scanning.blk, scanning.here, more, scanning.cached⟩
  obtain ⟨buf, has⟩ := scanning.cached loaded
  rw [current] at buf has
  unfold DirIter.entry
  dsimp only
  split
  · exact scanning.failed 1
  split
  · exact passed _
  split
  · exact passed _
  split
  · exact passed _
  · refine ⟨passed _, ?_⟩
    rintro found ⟨⟩
    refine ⟨?_, ?_, has⟩
    · rw [buf]
      rfl
    · change it.entIdx * 32 ≤ 480
      omega

theorem dirRound_scanning (it : DirIter) :
    Triple (Scanning b m it) (dirRound it) (Stop b m) := by
  refine Triple.ite (fun _ => Triple.pure fun d scanning => scanning.failed _) fun _ => ?_
  refine Triple.bind (dirLoadSector_scanning it) fun loaded => ?_
  cases loaded with
  | none => exact Triple.pure fun d post => post.1.failed _
  | some it' =>
      refine Triple.strengthen ?_ fun d post => post.2 it' rfl
      refine Triple.ite (fun _ => ?_) fun more => ?_
      · exact (dirAdvance_scanning it').strengthen fun d post => post.1
      · exact Triple.pure fun d post => entry_scanning post.1 post.2.1 post.2.2 (by omega)

theorem searchDir_scanning (rounds : Nat) (accept : Found → Bool) (it : DirIter) :
    Triple (Scanning b m it) (searchDir rounds accept it) fun result d =>
      Scanning b m result.2 d ∧ ∀ found, result.1 = some found →
        EntryAt b found.de result.2.slot := by
  refine Triple.loop (I := fun it => Scanning b m it) (fun it => ?_) rounds it
  have next : Triple (Scanning b m it) (fatDirnext rounds it) fun result d =>
      Scanning b m result.2 d ∧ ∀ found, result.1 = .ok found →
        EntryAt b found.de result.2.slot := by
    refine Triple.bind (mount_keeps _) fun m' => ?_
    refine Triple.ite (fun _ => Triple.pure fun d scanning => scanning.failed (-1)) fun _ => ?_
    exact (Triple.loop dirRound_scanning rounds { it with lfn := LfnBuf.clear }).strengthen
      fun d scanning => ⟨scanning.blk, scanning.here, scanning.idx, scanning.cached⟩
  refine Triple.bind next fun result => ?_
  obtain ⟨result, it'⟩ := result
  cases result with
  | error code => exact Triple.pure fun d post => ⟨post.1, nofun⟩
  | ok found =>
      refine Triple.pure fun d post => ?_
      split
      · refine ⟨post.1, ?_⟩
        rintro found' ⟨⟩
        exact post.2 found rfl
      · exact post.1

theorem scanning_diropenClus {d : Driver} (blk : d.blk = b) (here : d.m = m) (clus : Nat) :
    Scanning b m (m.diropenClus clus) d :=
  ⟨blk, here, Nat.zero_le _, nofun⟩

theorem scanning_diropenRoot {d : Driver} (blk : d.blk = b) (here : d.m = m) :
    Scanning b m m.diropenRoot d := by
  unfold Mount.diropenRoot
  split
  · exact scanning_diropenClus blk here _
  · exact ⟨blk, here, Nat.zero_le _, nofun⟩

/-- A handle that `fat_fopen` has filled in, with the entry on the disk. -/
structure OpenedAt (fp : FatFile) (slot : Slot) (fp' : FatFile) (b : BlkDev) (m : Mount)
    (d : Driver) : Prop where
  blk : d.blk = b
  here : d.m = m
  opens : ∃ de, EntryAt b de slot ∧ fp' = fp.opened de

theorem walkFile_opened {rounds : Nat} {fp fp' : FatFile} {comps : List (List UInt8 × Bool)}
    {d d' : Driver} (scanning : Scanning b m it d)
    (run : walkFile rounds fp comps it d = some ((0, fp'), d')) :
    ∃ slot, walkSlot rounds comps it d = some (some slot, d') ∧ OpenedAt fp slot fp' b m d' := by
  induction comps generalizing it d with
  | nil => exact absurd (Prod.mk.inj (Prod.mk.inj (Option.some.inj run)).1).1 (by decide)
  | cons comp rest ih =>
      obtain ⟨comp, more⟩ := comp
      obtain ⟨⟨found, it'⟩, d₁, search, run⟩ := Prog.bind_eq_some run
      obtain ⟨scanning', entry⟩ := searchDir_scanning rounds _ it d scanning _ d₁ search
      rw [walkSlot, Prog.bind_eq_of_run search]
      cases found with
      | none => exact absurd (Prod.mk.inj (Prod.mk.inj (Option.some.inj run)).1).1 (by decide)
      | some found =>
          dsimp only at run ⊢
          split at run
          · rename_i isMore
            rw [if_pos isMore]
            split at run
            · exact absurd (Prod.mk.inj (Prod.mk.inj (Option.some.inj run)).1).1 (by decide)
            · rename_i isDir
              rw [if_neg isDir]
              rw [Prog.bind_eq_of_run (mount_run d₁), scanning'.here] at run ⊢
              exact ih (scanning_diropenClus scanning'.blk scanning'.here _) run
          · rename_i last
            rw [if_neg last]
            split at run
            · exact absurd (Prod.mk.inj (Prod.mk.inj (Option.some.inj run)).1).1 (by decide)
            · rename_i isFile
              rw [if_neg isFile]
              obtain ⟨result, rfl⟩ := Prod.mk.inj (Option.some.inj run)
              obtain ⟨-, rfl⟩ := Prod.mk.inj result
              exact ⟨it'.slot, rfl, scanning'.blk, scanning'.here, found.de, entry found rfl, rfl⟩

theorem fatFopen_opened {rounds : Nat} {path : List UInt8} {fp fp' : FatFile} {d d' : Driver}
    (run : fatFopen rounds path fp d = some ((0, fp'), d')) :
    ∃ slot, fopenSlot rounds path d = some (some slot, d') ∧
      OpenedAt fp slot fp' d.blk d.m d' := by
  rw [fatFopen, Prog.bind_eq_of_run (mount_run d)] at run
  rw [fopenSlot, Prog.bind_eq_of_run (mount_run d)]
  split at run
  · exact absurd (Prod.mk.inj (Prod.mk.inj (Option.some.inj run)).1).1 (by decide)
  · rename_i valid
    rw [if_neg valid]
    exact walkFile_opened (scanning_diropenRoot rfl rfl) run

theorem OpenedAt.held {fp fp' : FatFile} {slot : Slot} {d : Driver}
    (opened : OpenedAt fp slot fp' b m d) (faults : b.faults = []) (place : fp.slot = slot) :
    Held m b.capacity slot fp' d := by
  obtain ⟨rfl, rfl, de, entry, rfl⟩ := opened
  have disk := entry.entry
  subst disk
  refine ⟨⟨rfl, rfl, faults⟩, rfl, place, ?_, ?_, id⟩
  · exact Buffer.loadLe_lt _ _ 4
  · have high := Buffer.loadLe_lt (d.disk slot.lba) (slot.off + 20) 2
    have low := Buffer.loadLe_lt (d.disk slot.lba) (slot.off + 26) 2
    change firstClusAt (d.disk slot.lba) slot.off < 2 ^ 32
    unfold firstClusAt
    omega

end Opening

section Creating

variable {m : Mount} {capacity : Nat}

theorem freeFile_steady (rounds first : Nat) :
    Triple (Steady m capacity) (freeFile rounds first) fun _ => Steady m capacity := by
  refine Triple.ite (fun _ => ?_) fun _ => Triple.pure fun _ => id
  refine Triple.bind (Triple.bind (mount_keeps _) fun m' => ?_) fun _ => Triple.pure fun _ => id
  refine Triple.loop_keeps (fun c => ?_) rounds first
  refine Triple.ite (fun _ => ?_) fun _ => Triple.pure fun _ => id
  refine Triple.bind (fatNextClus_steady c) fun nxt => ?_
  refine Triple.bind (fatSetEntry_steady c 0) fun ok => ?_
  refine Triple.ite (fun _ => Triple.pure fun _ => id) fun _ => ?_
  exact Triple.ite (fun _ => Triple.pure fun _ => id) fun _ => Triple.pure fun _ => id

/-- What the search for a free slot keeps; an offset it finds is that of an entry. -/
def FreeSlot (m : Mount) (capacity : Nat) (found : Option (Except Unit Slot)) (d : Driver) :
    Prop :=
  Steady m capacity d ∧ ∀ slot, found = some (.ok slot) → slot.off ≤ 480

theorem scanSector_steady (lba : Nat) :
    Triple (Steady m capacity) (scanSector lba) (FreeSlot m capacity) := by
  refine Triple.bind (loadWbuf_steady lba) fun ok => ?_
  refine Triple.ite (fun _ => Triple.pure fun d steady => ⟨steady, nofun⟩) fun _ => ?_
  refine Triple.bind (wbuf_keeps _) fun s => Triple.pure fun d steady => ⟨steady, ?_⟩
  intro slot found
  obtain ⟨off, free, atOff⟩ := Option.map_eq_some_iff.mp found
  obtain rfl := Except.ok.inj atOff
  exact freeOffset_le free

theorem scanFree_steady (lbas : List Nat) :
    Triple (Steady m capacity) (scanFree lbas) (FreeSlot m capacity) := by
  refine Triple.firstOf lbas (fun lba _ => ?_) fun d steady => ⟨steady, nofun⟩
  refine (scanSector_steady lba).weaken fun found d post => ?_
  cases found with
  | none => exact post.1
  | some found => exact post

theorem extendDir_steady (clus : Nat) :
    Triple (Steady m capacity) (extendDir clus) fun _ => Steady m capacity := by
  refine Triple.bind fatAllocCluster_steady fun nc => ?_
  refine Triple.ite (fun _ => Triple.pure fun _ => id) fun _ => ?_
  refine Triple.bind (fatSetEntry_steady clus nc) fun ok => ?_
  refine Triple.ite (fun _ => Triple.pure fun _ => id) fun _ => ?_
  refine Triple.bind (Triple.bind (mount_keeps _) fun m' => ?_) fun _ => Triple.pure fun _ => id
  refine Triple.bind (editWbuf_steady _) fun _ => ?_
  induction m'.clusterLbas nc with
  | nil => exact Triple.pure fun _ => id
  | cons lba rest ih =>
      refine Triple.bind ?_ fun _ => ih
      exact Triple.bind (writeWbuf_steady lba) fun _ => Triple.pure fun _ => id

/-- The result of the search: the place for a new entry. -/
def Place (m : Mount) (capacity : Nat) (slot : Option Slot) (d : Driver) : Prop :=
  Steady m capacity d ∧ ∀ found, slot = some found → found.off ≤ 480

theorem emptyRound_steady (m' : Mount) (c : Nat) :
    Triple (Steady m capacity) (emptyRound m' c)
      (Sum.elim (fun _ => Steady m capacity) (Place m capacity)) := by
  refine Triple.ite (fun _ => Triple.pure fun d steady => ⟨steady, nofun⟩) fun _ => ?_
  refine Triple.bind (scanFree_steady _) fun found => ?_
  match found with
  | some (.ok slot) =>
      refine Triple.pure fun d post => ⟨post.1, ?_⟩
      rintro slot' ⟨⟩
      exact post.2 slot rfl
  | some (.error ()) => exact Triple.pure fun d post => ⟨post.1, nofun⟩
  | none =>
      refine Triple.bind ((fatNextClus_steady c).strengthen fun d => And.left) fun nxt => ?_
      refine Triple.ite (fun _ => ?_) fun _ => Triple.pure fun _ => id
      refine Triple.bind (extendDir_steady c) fun extended => ?_
      cases extended with
      | none => exact Triple.pure fun d steady => ⟨steady, nofun⟩
      | some nc => exact Triple.pure fun _ => id

theorem fatFindEmptyDirent_steady (rounds : Nat) :
    Triple (Steady m capacity) (fatFindEmptyDirent rounds) (Place m capacity) := by
  refine Triple.bind invalidate_steady fun _ => Triple.bind (mount_keeps _) fun m' => ?_
  refine Triple.ite (fun _ => ?_) fun _ => ?_
  · refine Triple.bind (mount_keeps _) fun m' => ?_
    refine Triple.bind (scanFree_steady _) fun found => ?_
    match found with
    | some (.ok slot) =>
        refine Triple.pure fun d post => ⟨post.1, ?_⟩
        rintro slot' ⟨⟩
        exact post.2 slot rfl
    | some (.error ()) => exact Triple.pure fun d post => ⟨post.1, nofun⟩
    | none => exact Triple.pure fun d post => ⟨post.1, nofun⟩
  · refine Triple.bind (mount_keeps _) fun m'' => ?_
    exact Triple.loop (I := fun _ => Steady m capacity) (emptyRound_steady m'') rounds _

/-- The entry that `fat_fcreate` takes: the one that has the name, or a new one. -/
structure CreatedEntry (raw : List UInt8) (slot : Slot) (d d' : Driver) : Prop where
  off_le : slot.off ≤ 480
  has : d.blk.Has slot.lba
  empty : firstClusAt (d'.disk slot.lba) slot.off = 0 ∧
    (d'.disk slot.lba).loadLe (slot.off + 28) 4 = 0
  name : NamedSlot d.blk raw slot ∨ (d'.disk slot.lba).slice slot.off 11 = raw

theorem modifyEntry_entry {slot : Slot} {edit : Nat → Sector → Sector} {raw : List UInt8}
    {d d' : Driver} (faults : d.blk.faults = [])
    (run : modifyEntry slot edit d = some (true, d'))
    (entry : EntryIs (edit slot.off (d.disk slot.lba)) slot.off raw 0 0) :
    d.blk.Has slot.lba ∧ EntryIs (d'.disk slot.lba) slot.off raw 0 0 := by
  have has := modifyEntry_has run
  obtain ⟨d'', run', disk⟩ := modifyEntry_disk faults has edit
  obtain ⟨-, rfl⟩ := Prod.mk.inj (Option.some.inj (run'.symm.trans run))
  refine ⟨has, ?_⟩
  rw [disk, Function.update_self]
  exact entry

theorem fatFcreate_held {d d' : Driver} {rounds : Nat} {path : List UInt8} {fp fp' : FatFile}
    (ready : Ready d) (run : fatFcreate rounds path fp d = some ((0, fp'), d')) :
    ∃ slot, fp' = .created slot ∧ CreatedEntry (buildRawName (stripSlash path)) slot d d' ∧
      Held d.m d.blk.capacity slot fp' d' := by
  have sane := ready.sane
  have valid : ¬ (!d.m.valid) = true := by simp [sane.valid]
  rw [fatFcreate, Prog.bind_eq_of_run (mount_run d), if_neg valid,
    Prog.bind_eq_of_run (invalidate_run d)] at run
  obtain ⟨found, d₁, lookup, run⟩ := Prog.bind_eq_some run
  obtain ⟨⟨good₁, blk₁, m₁⟩, named⟩ := fatFindDirent_named sane rounds _ d.invalidated
    ⟨ready.good.invalidated.good, rfl, rfl⟩ found d₁ lookup
  have steady₁ : Steady d.m d.blk.capacity d₁ :=
    ⟨m₁, congrArg BlkDev.capacity blk₁, good₁.1.faults⟩
  -- the last step writes the entry; what came before it does not matter
  have finish {slot : Slot} {edit : Nat → Sector → Sector} {raw : List UInt8} {d₂ d₃ : Driver}
      (steady : Steady d.m d.blk.capacity d₂)
      (edited : modifyEntry slot edit d₂ = some (true, d₃))
      (entry : EntryIs (edit slot.off (d₂.disk slot.lba)) slot.off raw 0 0) :
      d.blk.Has slot.lba ∧ EntryIs (d₃.disk slot.lba) slot.off raw 0 0 ∧
        Held d.m d.blk.capacity slot (.created slot) d₃ := by
    obtain ⟨has, entry⟩ := modifyEntry_entry steady.faults edited entry
    refine ⟨?_, entry, ?_⟩
    · rw [BlkDev.Has, ← steady.size]
      exact has
    · exact ⟨modifyEntry_steady slot edit d₂ steady true d₃ edited, rfl, rfl,
        Nat.two_pow_pos 32, Nat.two_pow_pos 32, fun _ => entry.first⟩
  cases found with
  | some slot =>
      obtain ⟨named, -⟩ := named slot rfl
      obtain ⟨ok, d₂, truncated, run⟩ := Prog.bind_eq_some run
      cases ok with
      | false => exact absurd (Prod.mk.inj (Prod.mk.inj (Option.some.inj run)).1).1 (by decide)
      | true =>
          obtain ⟨result, rfl⟩ := Prod.mk.inj (Option.some.inj run)
          obtain ⟨-, rfl⟩ := Prod.mk.inj result
          obtain ⟨first, d₃, loaded, truncated⟩ := Prog.bind_eq_some truncated
          have steady₃ : Steady d.m d.blk.capacity d₃ :=
            loadWbuf_then_steady (Triple.bind (wbuf_keeps _) fun _ => Triple.pure fun _ => id)
              _ d₁ steady₁ first d₃ loaded
          cases first with
          | none => exact Bool.noConfusion (Prod.mk.inj (Option.some.inj truncated)).1
          | some first =>
              obtain ⟨u, d₄, freed, edited⟩ := Prog.bind_eq_some truncated
              have steady₄ := freeFile_steady rounds first d₃ steady₃ u d₄ freed
              obtain ⟨has, entry, held⟩ :=
                finish steady₄ edited (editTruncated_entry named.off_le)
              exact ⟨slot, rfl, ⟨named.off_le, has, ⟨entry.first, entry.size⟩, .inl named⟩, held⟩
  | none =>
      obtain ⟨slot, d₂, empty, run⟩ := Prog.bind_eq_some run
      obtain ⟨steady₂, place⟩ := fatFindEmptyDirent_steady rounds d₁ steady₁ slot d₂ empty
      cases slot with
      | none => exact absurd (Prod.mk.inj (Prod.mk.inj (Option.some.inj run)).1).1 (by decide)
      | some slot =>
          have off_le := place slot rfl
          obtain ⟨ok, d₃, edited, run⟩ := Prog.bind_eq_some run
          cases ok with
          | false =>
              exact absurd (Prod.mk.inj (Prod.mk.inj (Option.some.inj run)).1).1 (by decide)
          | true =>
              obtain ⟨result, rfl⟩ := Prod.mk.inj (Option.some.inj run)
              obtain ⟨-, rfl⟩ := Prod.mk.inj result
              obtain ⟨has, entry, held⟩ := finish steady₂ edited
                (editNew_entry off_le (length_buildRawName _) attrArchive)
              exact ⟨slot, rfl, ⟨off_le, has, ⟨entry.first, entry.size⟩, .inr entry.name⟩, held⟩

end Creating

section Entries

variable {d₀ : Driver} {rounds : Nat} {path : List UInt8}

theorem Held.flushesTo_runOps {m : Mount} {capacity : Nat} {slot : Slot} {fp fp' : FatFile}
    {d d' : Driver} (held : Held m capacity slot fp d) (sane : m.Sane capacity)
    (off_le : slot.off ≤ 480) (has : slot.lba + 1 < 2 ^ 32 ∧ slot.lba + 1 ≤ capacity)
    {rounds : Nat} {ops : List FileOp} (run : runOps rounds ops fp d = some (fp', d')) :
    FlushesTo slot fp' d' := by
  have held' := runOps_held sane rounds ops d held fp' d' run
  refine held'.flushesTo sane.valid off_le ?_
  rw [BlkDev.Has, held'.steady.size]
  exact has

/-- The handle of a created file is written back to the entry of its name, whatever was
done with it; the handle of an opened file is, when the caller's variable already
carried the place of that entry. -/
theorem fatFflush_entry (ready : Ready d₀) :
    (∀ fp₀ fp₁ d₁, fatFcreate rounds path fp₀ d₀ = some ((0, fp₁), d₁) →
      ∃ slot, CreatedEntry (buildRawName (stripSlash path)) slot d₀ d₁ ∧
        ∀ rounds' ops fp d, runOps rounds' ops fp₁ d₁ = some (fp, d) → FlushesTo slot fp d) ∧
    (∀ fp₀ fp₁ d₁, fatFopen rounds path fp₀ d₀ = some ((0, fp₁), d₁) →
      ∃ slot, fopenSlot rounds path d₀ = some (some slot, d₁) ∧
        (fp₀.slot = slot → ∀ rounds' ops fp d, runOps rounds' ops fp₁ d₁ = some (fp, d) →
          FlushesTo slot fp d)) := by
  constructor
  · intro fp₀ fp₁ d₁ run
    obtain ⟨slot, -, entry, held⟩ := fatFcreate_held ready run
    refine ⟨slot, entry, fun rounds' ops fp d ran => ?_⟩
    exact held.flushesTo_runOps ready.sane entry.off_le entry.has ran
  · intro fp₀ fp₁ d₁ run
    obtain ⟨slot, lookup, opened⟩ := fatFopen_opened run
    refine ⟨slot, lookup, fun place rounds' ops fp d ran => ?_⟩
    have held := opened.held ready.good.1.faults place
    obtain ⟨de, entry, -⟩ := opened.opens
    exact held.flushesTo_runOps ready.sane entry.off_le entry.has ran

/-- The file `A` is opened into a variable that carries the given place, and its first
byte is written. -/
def openAndPoke (place : Slot) : DriverM (Int × FatFile) := do
  let opened ← fatFopen 8 [65] { FatFile.unused with slot := place }
  let fp ← runOps 8 [.write [66]] opened.2
  pure (opened.1, fp)

theorem openAndPoke_some {place : Slot} {fp : FatFile} {d : Driver}
    (run : openAndPoke place smallDriver = some ((0, fp), d)) :
    ∃ fp₁ d₁,
      fatFopen 8 [65] { FatFile.unused with slot := place } smallDriver = some ((0, fp₁), d₁) ∧
      fopenSlot 8 [65] smallDriver = some (some ⟨3, 0⟩, d₁) ∧
      runOps 8 [.write [66]] fp₁ d₁ = some (fp, d) := by
  obtain ⟨⟨opened, fp₁⟩, d₁, open_run, run⟩ := Prog.bind_eq_some run
  obtain ⟨fp', d', ops_run, run⟩ := Prog.bind_eq_some run
  obtain ⟨result, rfl⟩ := Prod.mk.inj (Option.some.inj run)
  obtain ⟨rfl, rfl⟩ := Prod.mk.inj result
  obtain ⟨slot, lookup, -⟩ := fatFopen_opened open_run
  have found : (fopenSlot 8 [65] smallDriver).map (·.1) = some (some ⟨3, 0⟩) := by
    decide +kernel
  rw [lookup] at found
  obtain rfl : slot = ⟨3, 0⟩ := by simpa using found
  exact ⟨fp₁, d₁, open_run, lookup, ops_run⟩

theorem fatFflush_entry_poke : ∃ fp₁ d₁ fp d,
    fatFopen 8 [65] { FatFile.unused with slot := ⟨3, 0⟩ } smallDriver = some ((0, fp₁), d₁) ∧
    runOps 8 [.write [66]] fp₁ d₁ = some (fp, d) ∧ FlushesTo ⟨3, 0⟩ fp d := by
  have run : (openAndPoke ⟨3, 0⟩ smallDriver).map (·.1.1) = some 0 := by decide +kernel
  obtain ⟨⟨⟨code, fp⟩, d⟩, run, rfl⟩ := Option.map_eq_some_iff.mp run
  obtain ⟨fp₁, d₁, opened, found, ran⟩ := openAndPoke_some run
  refine ⟨fp₁, d₁, fp, d, opened, ran, ?_⟩
  obtain ⟨slot, lookup, flushes⟩ := (fatFflush_entry smallDriver_ready).2 _ fp₁ d₁ opened
  rw [found] at lookup
  obtain rfl : (⟨3, 0⟩ : Slot) = slot := by simpa using lookup
  exact flushes rfl 8 _ fp d ran

/-- A variable that has never carried a file: the size and the first cluster of `A` go
into the boot sector. -/
theorem fopen_flush_overwrites_boot : ∃ fp₁ d₁ fp d,
    fatFopen 8 [65] FatFile.unused smallDriver = some ((0, fp₁), d₁) ∧
    fopenSlot 8 [65] smallDriver = some (some ⟨3, 0⟩, d₁) ∧
    runOps 8 [.write [66]] fp₁ d₁ = some (fp, d) ∧ ¬ FlushesTo ⟨3, 0⟩ fp d := by
  have poked : (openAndPoke ⟨0, 0⟩ smallDriver).map
      (fun result => (result.1.1, (result.2.disk 0).loadLe 28 4)) = some (0, 0) := by
    decide +kernel
  have flushed : (((openAndPoke ⟨0, 0⟩) >>= fun result => fatFflush result.2) smallDriver).map
      (fun result => (result.2.disk 0).loadLe 28 4) = some 1536 := by
    decide +kernel
  obtain ⟨⟨⟨code, fp⟩, d⟩, run, ends⟩ := Option.map_eq_some_iff.mp poked
  obtain ⟨rfl, before⟩ := Prod.mk.inj ends
  obtain ⟨fp₁, d₁, opened, found, ran⟩ := openAndPoke_some run
  refine ⟨fp₁, d₁, fp, d, opened, found, ran, ?_⟩
  rintro ⟨d', flush, disk, -⟩
  rw [Prog.bind_eq_of_run run, flush] at flushed
  have after : (d'.disk 0).loadLe 28 4 = 1536 := by simpa using flushed
  rw [disk, Function.update_of_ne (by decide), before] at after
  exact absurd after (by decide)

end Entries

end Ncd15.Fat
