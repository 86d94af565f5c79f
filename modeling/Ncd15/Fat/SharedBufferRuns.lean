import Ncd15.Fat.SharedBuffer

/-!
# The shared buffer in a run

A write that follows a link reads the table between two data sectors, and the next
sector is loaded over the cached one.  A write is safe when it stays in its cluster
or appends behind the end of the chain, where every new link is written and not
followed.  The other operations have conditions of their own, and a run whose
operations all meet theirs never sees a stale sector.
-/

namespace Ncd15.Fat

open Ncd15.Library

section WriteInside

/-- No byte but the first starts a cluster. -/
def WriteLoop.Inside (m : Mount) (s : WriteLoop) : Prop :=
  ∀ k, 0 < k → k < s.rest.length → inCluster m.clusSize (u32 (s.fp.curPos + k)) ≠ 0

theorem WriteLoop.Inside.drop {m : Mount} {s : WriteLoop} (inside : s.Inside m) {n : Nat}
    {fp : FatFile} (pos : fp.curPos = u32 (s.fp.curPos + n)) :
    WriteLoop.Inside m { fp, rest := s.rest.drop n } := by
  intro k positive small
  rw [List.length_drop] at small
  have here := inside (n + k) (by omega) (by omega)
  dsimp only
  rw [pos]
  unfold u32 at here ⊢
  rwa [Nat.mod_add_mod, Nat.add_assoc]

/-- The handle after `attachFirst`, with the buffer free. -/
def Attached (fp : FatFile) : Except (Int × FatFile) FatFile → Driver → Prop
  | .error _, d => Good d
  | .ok fp', d => Idle d ∧ fp'.curPos = fp.curPos

theorem attachFirst_idle (fp : FatFile) (written : Int) :
    Triple Idle (attachFirst fp written) (Attached fp) := by
  refine Triple.ite (fun _ => ?_) fun _ => Triple.pure fun d idle => ⟨idle, rfl⟩
  refine Triple.bind (fatAllocCluster_good.strengthen fun _ => Idle.good) fun nc => ?_
  refine Triple.ite (fun _ => Triple.pure fun d post => post.1) fun nonzero => ?_
  refine Triple.bind ((modifyEntry_idle _ _).strengthen fun d post => post.2 nonzero)
    fun ok => ?_
  refine Triple.ite (fun _ => Triple.pure fun _ => Idle.good) fun _ => ?_
  exact Triple.pure fun d idle => ⟨idle, rfl⟩

theorem fwriteRound_inside (m : Mount) (total : Nat) {s : WriteLoop} (inside : s.Inside m) :
    Triple Idle (fwriteRound m total s)
      (Sum.elim (fun s' d => Idle d ∧ s'.Inside m) fun _ => Good) := by
  refine Triple.ite (fun _ => Triple.pure fun _ => Idle.good) fun more => ?_
  refine Triple.bind (attachFirst_idle s.fp _) fun attached => ?_
  cases attached with
  | error result => exact Triple.pure fun _ => id
  | ok fp =>
      refine Triple.assuming (fun d post => post.2) fun pos => ?_
      refine Triple.strengthen (P := Idle) ?_ fun d post => post.1
      refine loadWbuf_then (fun _ => Idle.good) (updateSec_then (fun _ => Idle.good) ?_)
      have next {n : Nat} : WriteLoop.Inside m { fp := { fp with
          curPos := u32 (fp.curPos + n)
          fileSize := max fp.fileSize (u32 (fp.curPos + n)) }, rest := s.rest.drop n } :=
        inside.drop (by rw [pos])
      refine Triple.ite (fun crosses => ?_) fun _ => Triple.pure fun d idle => ⟨idle, next⟩
      have stays := inside (s.rest.take (512 - inCluster m.clusSize fp.curPos % 512)).length
      rw [← pos] at stays
      refine absurd crosses.1 (stays ?_ ?_)
      · have positive := List.length_pos_iff.mpr more
        rw [List.length_take]
        omega
      · have left := List.length_pos_iff.mpr crosses.2
        rw [List.length_drop] at left
        omega

end WriteInside

section WriteBehind

/-- A write that starts where the chain of the file ends, or has no chain yet. -/
def FatFile.Appends (fp : FatFile) (d : Driver) : Prop :=
  if fp.firstClus = 0 then d.m.Sane d.blk.capacity ∧ d.m.Outside fp.slot.lba
  else d.EndsAt fp.curClus

/-- Between two pieces of such a write: the file ends at the current cluster. -/
structure AtEnd (m : Mount) (fp : FatFile) (d : Driver) : Prop where
  m : d.m = m
  idle : Idle d
  started : fp.firstClus ≠ 0
  ends : d.EndsAt fp.curClus

theorem updateSec_endsAt (lba c : Nat) (edit : Sector → Sector) :
    Triple (fun d => d.m.Outside lba ∧ d.EndsAt c) (updateSec lba edit) fun _ d =>
      d.EndsAt c := by
  rintro d ⟨outside, ends⟩ ok d' run
  have noted : noteUpdate lba edit d = some ((), _) := rfl
  rw [updateSec, Prog.bind_eq_of_run noted, Prog.bind_eq_of_run (editWbuf_run edit _)] at run
  unfold writeWbuf at run
  split at run
  · obtain ⟨-, rfl⟩ := Prod.mk.inj (Option.some.inj run)
    exact endsAt_congr ends rfl rfl fun _ _ => rfl
  split at run
  · obtain ⟨-, rfl⟩ := Prod.mk.inj (Option.some.inj run)
    exact endsAt_congr ends rfl rfl fun _ _ => rfl
  · obtain ⟨-, rfl⟩ := Prod.mk.inj (Option.some.inj run)
    refine endsAt_congr ends rfl rfl fun x inTable => ?_
    have ne : x ≠ lba := by
      rintro rfl
      exact inTable outside
    exact Function.update_of_ne ne _ _

variable {m : Mount} {fp : FatFile}

theorem loadWbuf_atEnd (lba : Nat) :
    Triple (AtEnd m fp) (loadWbuf lba) fun ok d =>
      AtEnd m fp d ∧ (ok = true → d.fatWbuf = d.disk lba) := by
  rintro d ⟨same, idle, started, ends⟩ ok d' run
  unfold loadWbuf at run
  split at run
  · obtain ⟨-, rfl⟩ := Prod.mk.inj (Option.some.inj run)
    exact ⟨⟨same, idle.edited _, started, ends⟩, fun _ => rfl⟩
  · obtain ⟨rfl, rfl⟩ := Prod.mk.inj (Option.some.inj run)
    exact ⟨⟨same, idle, started, ends⟩, nofun⟩

theorem updateSec_atEnd {lba : Nat} (outside : m.Outside lba) (edit : Sector → Sector) :
    Triple (fun d => AtEnd m fp d ∧ d.fatWbuf = d.disk lba) (updateSec lba edit) fun _ =>
      AtEnd m fp := by
  rintro d ⟨⟨same, idle, started, ends⟩, held⟩ ok d' run
  exact {
    m := updateSec_mount m lba edit d same ok d' run
    idle := updateSec_idle lba edit d ⟨idle, held⟩ ok d' run
    started
    ends := updateSec_endsAt lba fp.curClus edit d ⟨by rwa [same], ends⟩ ok d' run }

theorem loadWbuf_then_atEnd {lba : Nat} {α : Type} {failed : α} {next : DriverM α}
    {Q : α → Driver → Prop} (onFail : ∀ d, AtEnd m fp d → Q failed d)
    (onLoad : Triple (fun d => AtEnd m fp d ∧ d.fatWbuf = d.disk lba) next Q) :
    Triple (AtEnd m fp) (do if !(← loadWbuf lba) then pure failed else next) Q := by
  refine Triple.bind (loadWbuf_atEnd lba) fun ok => ?_
  cases ok with
  | false => exact Triple.pure fun d post => onFail d post.1
  | true => exact onLoad.strengthen fun d post => ⟨post.1, post.2 rfl⟩

/-- The handle after a step of the write, or the end of the write. -/
def Going (m : Mount) : Except (Int × FatFile) FatFile → Driver → Prop
  | .error _, d => Good d
  | .ok fp, d => AtEnd m fp d

theorem modifyEntry_then_atEnd {slot : Slot} (outside : m.Outside slot.lba)
    {edit : Nat → Sector → Sector} :
    Triple (AtEnd m fp) (do
      if !(← modifyEntry slot edit) then pure (.error (-1, fp)) else pure (.ok fp))
      (Going m) := by
  have entry : Triple (AtEnd m fp) (modifyEntry slot edit) fun _ => AtEnd m fp :=
    loadWbuf_then_atEnd (fun d => id) (updateSec_atEnd outside _)
  refine Triple.bind entry fun ok => Triple.ite (fun _ => ?_) fun _ => ?_
  · exact Triple.pure fun d atEnd => atEnd.idle.good
  · exact Triple.pure fun d => id

theorem AtEnd.of_allocated {d d' : Driver} {fp : FatFile} {nc : Nat} (alloc : Allocated d d' nc)
    (sane : d.m.Sane d.blk.capacity) (started : fp.firstClus ≠ 0) (last : fp.curClus = nc) :
    AtEnd d.m fp d' where
  m := alloc.step.m
  idle := alloc.step.free.idle
  started := started
  ends := by
    rw [last]
    refine ⟨alloc.step.free.1.sane, ?_, ?_⟩
    · rw [alloc.step.m]
      exact alloc.isCluster
    · rw [alloc.step.m]
      exact alloc.next_self sane

theorem attachFirst_atEnd (m : Mount) (fp : FatFile) (written : Int) :
    Triple (fun d => d.m = m ∧ Idle d ∧ fp.Appends d) (attachFirst fp written) (Going m) := by
  rintro d ⟨rfl, idle, appends⟩ result d' run
  unfold FatFile.Appends at appends
  rw [attachFirst] at run
  split at run
  case isFalse started =>
    rw [if_neg started] at appends
    obtain ⟨rfl, rfl⟩ := Prod.mk.inj (Option.some.inj run)
    exact ⟨rfl, idle, started, appends⟩
  case isTrue empty =>
    rw [if_pos empty] at appends
    obtain ⟨sane, outside⟩ := appends
    rcases fatAllocCluster_run ⟨idle.good, sane⟩ with ⟨nc, d₁, run₁, alloc⟩ | ⟨-, d₁, run₁, step₁⟩
    · rw [Prog.bind_eq_of_run run₁, if_neg alloc.ne_zero] at run
      exact modifyEntry_then_atEnd outside d₁ (.of_allocated alloc sane alloc.ne_zero rfl)
        result d' run
    · rw [Prog.bind_eq_of_run run₁, if_pos rfl] at run
      obtain ⟨rfl, rfl⟩ := Prod.mk.inj (Option.some.inj run)
      exact step₁.good

theorem nextForWrite_atEnd (m : Mount) (fp : FatFile) (written : Int) :
    Triple (AtEnd m fp) (nextForWrite fp written) (Going m) := by
  rintro d ⟨rfl, idle, started, ends⟩ result d' run
  have sane := ends.1
  obtain ⟨d₁, run₁, step₁⟩ := fatNextClus_run idle.good sane ends.2.1.2
  have last : d.m.next d.disk fp.curClus = noClus := ends.2.2
  rw [nextForWrite, Prog.bind_eq_of_run run₁, if_pos last] at run
  have ready₁ : Ready d₁ := step₁.ready ⟨idle.good, sane⟩
  rcases fatAllocCluster_run ready₁ with ⟨nc, d₂, run₂, alloc⟩ | ⟨-, d₂, run₂, step₂⟩
  · have isCluster : d₁.m.IsCluster fp.curClus := by
      rw [step₁.m]
      exact ends.2.1
    have used : d₁.m.link d₁.disk fp.curClus ≠ 0 := by
      rw [step₁.m, step₁.disk]
      exact ends.used
    obtain ⟨d₃, run₃, app⟩ := appended_run alloc ready₁.sane isCluster used
    rw [Prog.bind_eq_of_run run₂, if_neg alloc.ne_zero, Prog.bind_eq_of_run run₃] at run
    obtain ⟨rfl, rfl⟩ := Prod.mk.inj (Option.some.inj run)
    refine ⟨app.step.m.trans step₁.m, app.step.free.idle, started, app.step.free.1.sane, ?_, ?_⟩
    · rw [app.step.m]
      exact app.isCluster
    · rw [app.step.m]
      exact app.next_new ready₁.sane
  · rw [Prog.bind_eq_of_run run₂, if_pos rfl] at run
    obtain ⟨rfl, rfl⟩ := Prod.mk.inj (Option.some.inj run)
    exact step₂.good

theorem AtEnd.appends {d : Driver} (atEnd : AtEnd m fp d) :
    d.m = m ∧ Idle d ∧ fp.Appends d := by
  refine ⟨atEnd.m, atEnd.idle, ?_⟩
  rw [FatFile.Appends, if_neg atEnd.started]
  exact atEnd.ends

theorem AtEnd.moved {d : Driver} (atEnd : AtEnd m fp d) (pos size : Nat) :
    AtEnd m { fp with curPos := pos, fileSize := size } d :=
  ⟨atEnd.m, atEnd.idle, atEnd.started, atEnd.ends⟩

theorem fwriteRound_atEnd (m : Mount) (total : Nat) (s : WriteLoop) :
    Triple (fun d => d.m = m ∧ Idle d ∧ s.fp.Appends d) (fwriteRound m total s)
      (Sum.elim (fun s' d => d.m = m ∧ Idle d ∧ s'.fp.Appends d) fun _ => Good) := by
  refine Triple.ite (fun _ => Triple.pure fun d pre => pre.2.1.good) fun _ => ?_
  refine Triple.bind (attachFirst_atEnd m s.fp _) fun attached => ?_
  cases attached with
  | error result => exact Triple.pure fun _ => id
  | ok fp =>
      have inside (d : Driver) (atEnd : AtEnd m fp d) :
          m.Outside (u32 (m.clusToLba fp.curClus + inCluster m.clusSize fp.curPos / 512)) := by
        obtain ⟨rfl, -, -, ends⟩ := atEnd
        have sane := ends.1
        have small : inCluster d.m.clusSize fp.curPos / 512 < d.m.secPerClus := by
          rw [inCluster_eq sane, Nat.div_lt_iff_lt_mul (by decide)]
          exact Nat.mod_lt _ (Nat.mul_pos sane.sectors (by decide))
        rw [clusToLba_add sane ends.2.1 small]
        exact dataLba_outside sane
      refine Triple.assuming inside fun outside => ?_
      refine loadWbuf_then_atEnd (fun d atEnd => atEnd.idle.good) ?_
      refine Triple.bind (updateSec_atEnd outside _) fun ok => ?_
      refine Triple.ite (fun _ => Triple.pure fun d atEnd => atEnd.idle.good) fun _ => ?_
      refine Triple.ite (fun _ => ?_) fun _ => ?_
      · refine Triple.bind ((nextForWrite_atEnd m _ _).strengthen fun d atEnd =>
          atEnd.moved _ _) fun next => ?_
        cases next with
        | error result => exact Triple.pure fun _ => id
        | ok fp => exact Triple.pure fun d => AtEnd.appends
      · exact Triple.pure fun d atEnd => (atEnd.moved _ _).appends

end WriteBehind

section Write

/-- `fat_fwrite` follows no link: the bytes stay in one cluster, or the chain of the
file ends where they go. -/
def WriteClear (fp : FatFile) (bytes : List UInt8) (d : Driver) : Prop :=
  WriteLoop.Inside d.m { fp, rest := bytes } ∨ fp.Appends d

theorem fatFwrite_good {rounds : Nat} {fp : FatFile} {bytes : List UInt8} :
    Triple (fun d => Good d ∧ WriteClear fp bytes d) (fatFwrite rounds fp bytes) fun _ => Good := by
  rintro d ⟨good, clear⟩ result d' run
  rw [fatFwrite, Prog.bind_eq_of_run (mount_run d)] at run
  split at run
  · obtain ⟨-, rfl⟩ := Prod.mk.inj (Option.some.inj run)
    exact good
  rw [Prog.bind_eq_of_run (invalidate_run d)] at run
  rcases clear with inside | appends
  · have round (s : WriteLoop) :
        Triple (fun d' => Idle d' ∧ s.Inside d.m) (fwriteRound d.m bytes.length s)
          (Sum.elim (fun s' d' => Idle d' ∧ s'.Inside d.m) fun _ => Good) :=
      Triple.assuming (fun _ pre => pre.2) fun inside =>
        (fwriteRound_inside d.m bytes.length inside).strengthen fun _ pre => pre.1
    exact Triple.loop round rounds { fp, rest := bytes } d.invalidated
      ⟨good.invalidated, inside⟩ result d' run
  · exact Triple.loop (fwriteRound_atEnd d.m bytes.length) rounds { fp, rest := bytes }
      d.invalidated ⟨rfl, good.invalidated, appends⟩ result d' run

end Write

section Runs

/-- The public operations that touch the driver's state, with their arguments. -/
inductive Op
  | mount
  | nextClus (clus : Nat)
  | countFreeClusters
  | diropenPath (path : List UInt8)
  | dirnext (it : DirIter)
  | searchFirst (pattern : List UInt8)
  | searchNext (it : DirIter) (pattern : List UInt8)
  | fopen (path : List UInt8) (fp : FatFile)
  | fread (fp : FatFile) (max : Nat)
  | fseek (fp : FatFile) (bytePos : Nat)
  | fcreate (path : List UInt8) (fp : FatFile)
  | fwrite (fp : FatFile) (bytes : List UInt8)
  | fflush (fp : FatFile)
  | funlink (path : List UInt8)
  | frename (old new : List UInt8)
  | mkdir (path : List UInt8)
  | rmdir (path : List UInt8)

/-- The program takes one state to the other. -/
def Leads {α : Type} (f : DriverM α) (d d' : Driver) : Prop := ∃ a, f d = some (a, d')

/-- What an operation does to the driver. -/
def Op.Leads (rounds : Nat) : Op → Driver → Driver → Prop
  | .mount => Fat.Leads fatMount
  | .nextClus clus => Fat.Leads (fatNextClus clus)
  | .countFreeClusters => Fat.Leads fatCountFreeClusters
  | .diropenPath path => Fat.Leads (fatDiropenPath rounds path)
  | .dirnext it => Fat.Leads (fatDirnext rounds it)
  | .searchFirst pattern => Fat.Leads (fatSearchFirst rounds pattern)
  | .searchNext it pattern => Fat.Leads (fatSearchNext rounds it pattern)
  | .fopen path fp => Fat.Leads (fatFopen rounds path fp)
  | .fread fp max => Fat.Leads (fatFread rounds fp max)
  | .fseek fp bytePos => Fat.Leads (fatFseek fp bytePos)
  | .fcreate path fp => Fat.Leads (fatFcreate rounds path fp)
  | .fwrite fp bytes => Fat.Leads (fatFwrite rounds fp bytes)
  | .fflush fp => Fat.Leads (fatFflush fp)
  | .funlink path => Fat.Leads (fatFunlink rounds path)
  | .frename old new => Fat.Leads (fatFrename rounds old new)
  | .mkdir path => Fat.Leads (fatMkdir rounds path)
  | .rmdir path => Fat.Leads (fatRmdir rounds path)

/-- The condition on an operation: it never loads a sector over a table sector that
it has read on the way. -/
def Op.Clear (rounds : Nat) : Op → Driver → Prop
  | .fcreate path _ => CreateClear rounds path
  | .fwrite fp bytes => WriteClear fp bytes
  | .funlink path => fun d =>
      FindsIdle (fatFindDirent rounds (buildRawName (stripSlash path))) Option.isSome
        d.invalidated
  | .frename old new => fun d =>
      FindsIdle (renameLookup rounds old new) Option.isSome d.invalidated
  | .mkdir path => MkdirClear rounds path
  | .rmdir path => RmdirClear rounds path
  | _ => fun _ => True

/-- The states after `fat_mount` and operations that are all allowed, on a device
that does not fail. -/
inductive Reached (allowed : Nat → Op → Driver → Prop) : Driver → Prop
  | mount {d d' : Driver} (healthy : d.Healthy) (mounted : Leads fatMount d d') :
      Reached allowed d'
  | step {d d' : Driver} (rounds : Nat) (op : Op) (before : Reached allowed d)
      (permitted : allowed rounds op d) (leads : op.Leads rounds d d') : Reached allowed d'

theorem editMount_idle (edit : Mount → Mount) :
    Triple Idle (editMount edit) fun _ => Idle := by
  rintro d idle u d' ⟨⟩
  exact idle

/-- A mount, done or refused, leaves the buffer free. -/
theorem fatMount_idle : Triple Driver.Healthy fatMount fun _ => Idle := by
  have cleared : Triple Driver.Healthy (fun d => some ((), d.unmounted)) fun _ => Idle := by
    rintro d healthy u d' ⟨⟩
    exact ⟨healthy, rfl⟩
  refine Triple.bind cleared fun _ => Triple.bind (readSec_idle 0) fun bpb => ?_
  cases bpb with
  | none => exact Triple.pure fun _ => id
  | some bpb =>
      refine Triple.ite (fun _ => Triple.pure fun _ => id) fun _ => ?_
      refine Triple.bind (editMount_idle _) fun _ => Triple.bind (mount_keeps Idle) fun m => ?_
      cases m.bootError with
      | some code => exact Triple.pure fun _ => id
      | none => exact Triple.bind (editMount_idle _) fun _ => Triple.pure fun _ => id

theorem fatMount_good : Triple Driver.Healthy fatMount fun _ => Good :=
  fatMount_idle.weaken fun _ _ => Idle.good

theorem Leads.good {α : Type} {f : DriverM α} {P : Driver → Prop} {d d' : Driver}
    (leads : Leads f d d') (triple : Triple P f fun _ => Good) (pre : P d) : Good d' := by
  obtain ⟨a, run⟩ := leads
  exact triple d pre a d' run

theorem Op.Leads.good {rounds : Nat} {op : Op} {d d' : Driver} (leads : op.Leads rounds d d')
    (good : Good d) (clear : op.Clear rounds d) : Good d' := by
  cases op with
  | mount => exact Fat.Leads.good leads fatMount_good good.1
  | nextClus clus => exact Fat.Leads.good leads (fatNextClus_keeps readFatSec_good clus) good
  | countFreeClusters =>
      exact Fat.Leads.good leads (fatCountFreeClusters_keeps readFatSec_good) good
  | diropenPath path =>
      exact Fat.Leads.good leads (fatDiropenPath_keeps readFatSec_good rounds path) good
  | dirnext it => exact Fat.Leads.good leads (fatDirnext_keeps readFatSec_good rounds it) good
  | searchFirst pattern =>
      exact Fat.Leads.good leads (fatSearchFirst_keeps readFatSec_good rounds pattern) good
  | searchNext it pattern =>
      exact Fat.Leads.good leads (fatSearchNext_keeps readFatSec_good rounds it pattern) good
  | fopen path fp =>
      exact Fat.Leads.good leads (fatFopen_keeps readFatSec_good rounds path fp) good
  | fread fp max => exact Fat.Leads.good leads (fatFread_good rounds fp max) good
  | fseek fp bytePos =>
      exact Fat.Leads.good leads (fatFseek_keeps readFatSec_good fp bytePos) good
  | fcreate path fp => exact Fat.Leads.good leads fatFcreate_good ⟨good, clear⟩
  | fwrite fp bytes => exact Fat.Leads.good leads fatFwrite_good ⟨good, clear⟩
  | fflush fp => exact Fat.Leads.good leads (fatFflush_good fp) good
  | funlink path => exact Fat.Leads.good leads fatFunlink_good ⟨good, clear⟩
  | frename old new => exact Fat.Leads.good leads fatFrename_good ⟨good, clear⟩
  | mkdir path => exact Fat.Leads.good leads fatMkdir_good ⟨good, clear⟩
  | rmdir path => exact Fat.Leads.good leads fatRmdir_good ⟨good, clear⟩

/-- The shared buffer in a state between two operations: no FAT read so far was
answered from other bytes than those on disk, no sector was written back with other
bytes changed than intended, and the next FAT read finds its sector. -/
structure BufferHolds (d : Driver) : Prop where
  fresh : d.staleRead = false
  intended : d.lostUpdate = false
  reads : ∀ lba d', readFatSec lba d = some (true, d') → d'.fatWbuf = d'.disk lba

theorem Good.bufferHolds {d : Driver} (good : Good d) : BufferHolds d where
  fresh := good.1.sound.1
  intended := good.1.sound.2
  reads := by
    intro lba d' run
    unfold readFatSec at run
    split at run
    · rename_i hit
      obtain ⟨-, rfl⟩ := Prod.mk.inj (Option.some.inj run)
      have held := good.2 hit.1
      rwa [hit.2] at held
    split at run
    · obtain ⟨-, rfl⟩ := Prod.mk.inj (Option.some.inj run)
      rfl
    · obtain ⟨failed, -⟩ := Prod.mk.inj (Option.some.inj run)
      exact absurd failed (by decide)

end Runs

section SmallVolume

/-- A FAT12 volume of 40 sectors, one sector to a cluster, with the file `A` in
clusters 2, 3 and 4. -/
def smallVolume : Nat → Sector
  | 0 => ((((((((Buffer.zero.blit 11 [0x00, 0x02]).blit 13 [1]).blit 14 [1, 0]).blit 16 [2]).blit
      17 [16, 0]).blit 19 [40, 0]).blit 22 [1, 0]).blit 510 [0x55, 0xAA])
  | 1 | 2 => Buffer.zero.blit 0 [0xF8, 0xFF, 0xFF, 0x03, 0x40, 0x00, 0xFF, 0x0F]
  | 3 => (((Buffer.zero.blit 0 (65 :: List.replicate 10 32)).blit 11 [0x20]).blit 26 [2, 0]).blit
      28 [0x00, 0x06, 0, 0]
  | _ => Buffer.zero

/-- The driver before it has mounted anything. -/
def Driver.initial (disk : Nat → Sector) (capacity : Nat) : Driver :=
  { blk := { sec := disk, capacity, faults := [] }
    m := {
      valid := false, type := .none, bytesPerSec := 0, secPerClus := 0, rsvdSec := 0
      numFats := 0, rootEntCount := 0, totalSec := 0, fatSec := 0, rootClus := 0
      firstDataSec := 0, firstRootSec := 0, clusterCount := 0 }
    secBuf := Buffer.zero, secBufLba := 0, secBufValid := false
    fatWbuf := Buffer.zero, fatBufLba := 0, fatBufValid := false
    staleRead := false, lostUpdate := false }

def FatFile.unused : FatFile :=
  { inUse := false, firstClus := 0, curClus := 0, curPos := 0, fileSize := 0
    slot := { lba := 0, off := 0 }, attr := 0 }

/-- The file `A` is opened and written from its first byte on. -/
def openAndWrite (bytes : List UInt8) : DriverM Int := do
  let _ ← fatMount
  let opened ← fatFopen 8 [65] FatFile.unused
  let written ← fatFwrite 8 opened.2 bytes
  pure written.1

theorem openAndWrite_reached {allowed : Nat → Op → Driver → Prop} {bytes : List UInt8}
    {code : Int} {d : Driver}
    (reads : ∀ d, allowed 8 (.fopen [65] FatFile.unused) d)
    (writes : ∀ fp d, allowed 8 (.fwrite fp bytes) d)
    (run : openAndWrite bytes (Driver.initial smallVolume 40) = some (code, d)) :
    Reached allowed d := by
  obtain ⟨mounted, d₁, run₁, run⟩ := Prog.bind_eq_some run
  obtain ⟨opened, d₂, run₂, run⟩ := Prog.bind_eq_some run
  obtain ⟨written, d₃, run₃, run⟩ := Prog.bind_eq_some run
  obtain ⟨-, rfl⟩ := Prod.mk.inj (Option.some.inj run)
  have reached₁ : Reached allowed d₁ := .mount ⟨⟨rfl, rfl⟩, rfl⟩ ⟨mounted, run₁⟩
  have reached₂ : Reached allowed d₂ := reached₁.step 8 _ (reads d₁) ⟨opened, run₂⟩
  exact reached₂.step 8 _ (writes opened.2 d₂) ⟨written, run₃⟩

/-- What `fat_mount` finds on the volume. -/
def smallMount : Mount :=
  { valid := true, type := .fat12, bytesPerSec := 512, secPerClus := 1, rsvdSec := 1
    numFats := 2, rootEntCount := 16, totalSec := 40, fatSec := 1, rootClus := 0
    firstDataSec := 4, firstRootSec := 3, clusterCount := 36 }

theorem smallMount_sane : smallMount.Sane 40 where
  valid := rfl
  capacity_lt := by decide
  reserved := by decide
  fats := by decide
  sectors := by decide
  sectors_pow := ⟨0, by decide, rfl⟩
  rootStart := rfl
  dataStart := rfl
  rootWhole := rfl
  dataFits := by decide
  covers := by decide
  type_eq := rfl
  count_le := by decide
  mirrors := fun _ _ _ => rfl
  fixedRoot := by decide
  rootClus := by decide

/-- The driver with the volume mounted. -/
def smallDriver : Driver := { Driver.initial smallVolume 40 with m := smallMount }

theorem smallDriver_ready : Ready smallDriver where
  good := Idle.good ⟨⟨⟨rfl, rfl⟩, rfl⟩, rfl⟩
  sane := smallMount_sane

end SmallVolume

end Ncd15.Fat
