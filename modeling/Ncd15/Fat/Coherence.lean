import Ncd15.Fat.Files

/-!
# The shared buffer

`Good` is the state in which a FAT read may be served from the shared buffer, and
`Idle` the state in which the buffer may be used for something else.  Functions
that only follow chains keep `Good`; functions that read a sector for an edit start
from `Idle`.
-/

namespace Ncd15.Fat

open Ncd15.Library

/-- Nothing has gone wrong with the shared buffer so far. -/
def Driver.Sound (d : Driver) : Prop := d.staleRead = false ∧ d.lostUpdate = false

/-- The block device does not fail, and nothing has gone wrong so far. -/
def Driver.Healthy (d : Driver) : Prop := d.Sound ∧ d.blk.faults = []

theorem Driver.Healthy.sound {d : Driver} (healthy : d.Healthy) : d.Sound := healthy.1

theorem Driver.Healthy.faults {d : Driver} (healthy : d.Healthy) : d.blk.faults = [] := healthy.2

/-- A valid FAT cache holds the sector it is tagged with. -/
def Driver.Coherent (d : Driver) : Prop :=
  d.fatBufValid = true → d.fatWbuf = d.disk d.fatBufLba

/-- The buffer may serve FAT reads. -/
def Good (d : Driver) : Prop := d.Healthy ∧ d.Coherent

/-- The buffer caches nothing. -/
def Idle (d : Driver) : Prop := d.Healthy ∧ d.fatBufValid = false

/-- The buffer holds a sector, outside of the cache. -/
def Holding (lba : Nat) (d : Driver) : Prop := Idle d ∧ d.fatWbuf = d.disk lba

theorem Idle.good {d : Driver} (idle : Idle d) : Good d :=
  ⟨idle.1, fun valid => by simp [idle.2] at valid⟩

theorem Idle.edited {d : Driver} (idle : Idle d) (s : Sector) : Idle { d with fatWbuf := s } :=
  ⟨⟨idle.1.1, idle.1.2⟩, idle.2⟩

theorem Holding.idle {lba : Nat} {d : Driver} (holding : Holding lba d) : Idle d := holding.1

section Primitives

theorem mount_keeps (P : Driver → Prop) : Triple P mount fun _ => P := by
  rintro d holds m d' ⟨⟩
  exact holds

theorem wbuf_keeps (P : Driver → Prop) : Triple P wbuf fun _ => P := by
  rintro d holds s d' ⟨⟩
  exact holds

theorem invalidate_idle : Triple Good invalidate fun _ => Idle := by
  rintro d good u d' ⟨⟩
  exact ⟨good.1, rfl⟩

theorem readFatSec_good (lba : Nat) : Triple Good (readFatSec lba) fun _ => Good := by
  intro d good ok d' run
  unfold readFatSec at run
  split at run
  · rename_i hit
    obtain ⟨-, rfl⟩ := Prod.mk.inj (Option.some.inj run)
    have held := good.2 hit.1
    rw [hit.2] at held
    exact ⟨⟨⟨by simp [Driver.noteRead, good.1.sound.1, held], good.1.sound.2⟩,
      good.1.faults⟩, good.2⟩
  split at run
  · obtain ⟨-, rfl⟩ := Prod.mk.inj (Option.some.inj run)
    exact ⟨⟨⟨by simp [Driver.noteRead, Driver.fillFat, good.1.sound.1], good.1.sound.2⟩,
      good.1.faults⟩, fun _ => rfl⟩
  · obtain ⟨-, rfl⟩ := Prod.mk.inj (Option.some.inj run)
    exact good

def KeptByReads (P : Driver → Prop) : Prop := ∀ lba, Triple P (readFatSec lba) fun _ => P

/-- The buffer may serve FAT reads, with a known device and known mount data. -/
def GoodAt (b : BlkDev) (m : Mount) (d : Driver) : Prop := Good d ∧ d.blk = b ∧ d.m = m

theorem readFatSec_goodAt (b : BlkDev) (m : Mount) : KeptByReads (GoodAt b m) := by
  rintro lba d ⟨good, blk, rfl⟩ ok d' run
  refine ⟨readFatSec_good lba d good ok d' run, ?_⟩
  unfold readFatSec at run
  split at run
  · obtain ⟨-, rfl⟩ := Prod.mk.inj (Option.some.inj run)
    exact ⟨blk, rfl⟩
  split at run
  · obtain ⟨-, rfl⟩ := Prod.mk.inj (Option.some.inj run)
    exact ⟨blk, rfl⟩
  · obtain ⟨-, rfl⟩ := Prod.mk.inj (Option.some.inj run)
    exact ⟨blk, rfl⟩

theorem loadWbuf_holding (lba : Nat) :
    Triple Idle (loadWbuf lba) fun ok d => Idle d ∧ (ok = true → Holding lba d) := by
  intro d idle ok d' run
  unfold loadWbuf at run
  split at run
  · obtain ⟨-, rfl⟩ := Prod.mk.inj (Option.some.inj run)
    exact ⟨idle, fun _ => ⟨idle, rfl⟩⟩
  · obtain ⟨rfl, rfl⟩ := Prod.mk.inj (Option.some.inj run)
    exact ⟨idle, fun absurd => by simp at absurd⟩

theorem editWbuf_idle (edit : Sector → Sector) :
    Triple Idle (editWbuf edit) fun _ => Idle := by
  rintro d idle u d' ⟨⟩
  exact idle

theorem writeWbuf_idle (lba : Nat) : Triple Idle (writeWbuf lba) fun _ => Idle := by
  intro d idle ok d' run
  unfold writeWbuf at run
  split at run
  · obtain ⟨-, rfl⟩ := Prod.mk.inj (Option.some.inj run)
    exact idle
  split at run
  · obtain ⟨-, rfl⟩ := Prod.mk.inj (Option.some.inj run)
    exact ⟨⟨idle.1.sound, by simp [BlkDev.skip, idle.1.faults]⟩, idle.2⟩
  · obtain ⟨-, rfl⟩ := Prod.mk.inj (Option.some.inj run)
    exact ⟨⟨idle.1.sound, by simp [Driver.stored, BlkDev.put, idle.1.faults]⟩,
      by simp [Driver.stored, idle.2]⟩

theorem noteUpdate_holding (lba : Nat) (edit : Sector → Sector) :
    Triple (Holding lba) (noteUpdate lba edit) fun _ => Idle := by
  rintro d ⟨idle, held⟩ u d' ⟨⟩
  exact ⟨⟨⟨idle.1.sound.1, by simp [idle.1.sound.2, held]⟩, idle.1.faults⟩, idle.2⟩

/-- An edit written back to the sector the buffer holds loses nothing. -/
theorem updateSec_idle (lba : Nat) (edit : Sector → Sector) :
    Triple (Holding lba) (updateSec lba edit) fun _ => Idle := by
  unfold updateSec
  refine Triple.bind (noteUpdate_holding lba edit) fun _ => ?_
  exact Triple.bind (editWbuf_idle edit) fun _ => writeWbuf_idle lba

theorem loadWbuf_then {lba : Nat} {α : Type} {failed : α} {next : DriverM α}
    {Q : α → Driver → Prop} (onFail : ∀ d, Idle d → Q failed d)
    (onLoad : Triple (Holding lba) next Q) :
    Triple Idle (do if !(← loadWbuf lba) then pure failed else next) Q := by
  refine Triple.bind (loadWbuf_holding lba) fun ok => ?_
  cases ok with
  | false => exact Triple.pure fun d post => onFail d post.1
  | true => exact onLoad.strengthen fun d post => post.2 rfl

theorem updateSec_then {lba : Nat} {edit : Sector → Sector} {α : Type} {failed : α}
    {next : DriverM α} {Q : α → Driver → Prop} (onFail : ∀ d, Idle d → Q failed d)
    (onDone : Triple Idle next Q) :
    Triple (Holding lba) (do if !(← updateSec lba edit) then pure failed else next) Q := by
  refine Triple.bind (updateSec_idle lba edit) fun ok => ?_
  cases ok with
  | false => exact Triple.pure onFail
  | true => exact onDone

theorem readFatSec_then {P : Driver → Prop} {lba : Nat} {α : Type} {failed : α}
    {next : DriverM α} {Q : α → Driver → Prop} (reads : KeptByReads P)
    (onFail : ∀ d, P d → Q failed d) (onRead : Triple P next Q) :
    Triple P (do if !(← readFatSec lba) then pure failed else next) Q := by
  refine Triple.bind (reads lba) fun ok => ?_
  cases ok with
  | false => exact Triple.pure onFail
  | true => exact onRead

end Primitives

section Table

variable {P : Driver → Prop}

theorem fatNextClus12_keeps (reads : KeptByReads P) (m : Mount) (clus : Nat) :
    Triple P (fatNextClus12 m clus) fun _ => P := by
  refine readFatSec_then reads (fun _ => id) (Triple.ite (fun _ => ?_) fun _ => ?_)
  · refine readFatSec_then reads (fun _ => id) (readFatSec_then reads (fun _ => id) ?_)
    refine Triple.bind (wbuf_keeps P) fun _ => readFatSec_then reads (fun _ => id) ?_
    exact Triple.bind (wbuf_keeps P) fun _ => Triple.pure fun _ => id
  · exact Triple.bind (wbuf_keeps P) fun _ => Triple.pure fun _ => id

theorem fatNextClus_keeps (reads : KeptByReads P) (clus : Nat) :
    Triple P (fatNextClus clus) fun _ => P := by
  refine Triple.bind (mount_keeps P) fun m => ?_
  have one {idx : Sector → Nat} : Triple P (do
      if !(← readFatSec (m.entryLba clus)) then pure noClus
      else do pure (idx (← wbuf))) fun _ => P :=
    readFatSec_then reads (fun _ => id)
      (Triple.bind (wbuf_keeps P) fun _ => Triple.pure fun _ => id)
  dsimp only
  split
  · exact one
  · exact one
  · exact fatNextClus12_keeps reads m clus

theorem fatNextClus_ofIdle (clus : Nat) :
    Triple Idle (fatNextClus clus) fun _ => Good :=
  (fatNextClus_keeps readFatSec_good clus).strengthen fun _ => Idle.good

theorem mirrorFat_idle (m : Mount) (lba : Nat) :
    Triple Idle (mirrorFat m lba) fun _ => Idle := by
  refine Triple.bind (Triple.firstOf_keeps _ fun i _ => ?_) fun _ => Triple.pure fun _ => id
  exact Triple.bind (writeWbuf_idle _) fun ok => Triple.pure fun _ => id

theorem fatSetStraddled_idle (m : Mount) (clus value : Nat) :
    Triple (Holding (m.entryLba clus)) (fatSetStraddled m clus value) fun _ => Idle := by
  have id' : ∀ d, Idle d → Idle d := fun _ => id
  refine Triple.bind (wbuf_keeps _) fun buf => ?_
  refine updateSec_then id' (loadWbuf_then id' (updateSec_then id' (loadWbuf_then id' ?_)))
  exact updateSec_then id' (loadWbuf_then id' (updateSec_idle _ _))

/-- Writing an entry leaves the buffer free, whatever it held before. -/
theorem fatSetEntry_idle (clus value : Nat) :
    Triple Good (fatSetEntry clus value) fun _ => Idle := by
  refine Triple.bind (mount_keeps Good) fun m => ?_
  refine Triple.bind invalidate_idle fun _ => ?_
  refine loadWbuf_then (fun _ => id) (Triple.ite (fun _ => ?_) fun _ => ?_)
  · exact fatSetStraddled_idle m clus value
  · exact updateSec_then (fun _ => id) (mirrorFat_idle m _)

theorem tryCluster_good (m : Mount) (c : Nat) :
    Triple Good (tryCluster m c) fun found d =>
      match found with
      | none => Good d
      | some _ => Idle d := by
  refine Triple.bind (fatNextClus_keeps readFatSec_good c) fun nxt => ?_
  refine Triple.ite (fun _ => ?_) fun _ => ?_
  · refine Triple.bind (fatSetEntry_idle c m.eoc) fun ok => ?_
    cases ok <;> exact Triple.pure fun _ => id
  · exact Triple.pure fun _ => id

/-- A cluster that was allocated leaves the buffer free. -/
theorem fatAllocCluster_good :
    Triple Good fatAllocCluster fun nc d => Good d ∧ (nc ≠ 0 → Idle d) := by
  refine Triple.bind (mount_keeps Good) fun m => ?_
  have search : Triple Good (Prog.firstOf (tryCluster m) m.clusters) fun found d =>
      Good d ∧ (found.getD 0 ≠ 0 → Idle d) := by
    refine Triple.firstOf _ (fun c _ => (tryCluster_good m c).weaken ?_) fun d good => ?_
    · intro found d post
      cases found with
      | none => exact post
      | some nc => exact ⟨post.good, fun _ => post⟩
    · exact ⟨good, fun nonzero => (nonzero rfl).elim⟩
  exact Triple.bind search fun found => Triple.pure fun d post => post

theorem freeRound_idle (m : Mount) {c : Nat} (inRange : 2 ≤ c ∧ c < m.clusEnd) :
    Triple Good (freeRound m c) fun _ => Idle := by
  rw [freeRound, if_pos inRange]
  refine Triple.bind (fatNextClus_keeps readFatSec_good c) fun nxt => ?_
  refine Triple.bind (fatSetEntry_idle c 0) fun ok => ?_
  refine Triple.ite (fun _ => Triple.pure fun _ => id) fun _ => ?_
  exact Triple.ite (fun _ => Triple.pure fun _ => id) fun _ => Triple.pure fun _ => id

theorem freeLoop_idle (m : Mount) (rounds first : Nat) :
    Triple Idle (Prog.loop (freeRound m) rounds first) fun _ => Idle := by
  refine Triple.loop_keeps (fun c => ?_) rounds first
  by_cases inRange : 2 ≤ c ∧ c < m.clusEnd
  · exact (freeRound_idle m inRange).strengthen fun _ => Idle.good
  · rw [freeRound, if_neg inRange]
    exact Triple.pure fun _ => id

/-- Freeing a chain needs the buffer free only for the functions that follow. -/
theorem fatFreeChain_idle (rounds first : Nat) :
    Triple Idle (fatFreeChain rounds first) fun _ => Idle :=
  Triple.bind (mount_keeps Idle) fun m => freeLoop_idle m rounds first

end Table

section Directory

variable {P : Driver → Prop}

theorem dirLoadSector_keeps (P) (it : DirIter) :
    Triple P (dirLoadSector it) fun _ => P := by
  intro d holds r d' run
  unfold dirLoadSector at run
  split at run
  · obtain ⟨-, rfl⟩ := Prod.mk.inj (Option.some.inj run)
    exact holds
  split at run
  · obtain ⟨-, rfl⟩ := Prod.mk.inj (Option.some.inj run)
    exact holds
  · obtain ⟨-, rfl⟩ := Prod.mk.inj (Option.some.inj run)
    exact holds

theorem dirAdvance_keeps (reads : KeptByReads P) (it : DirIter) :
    Triple P (dirAdvance it) fun _ => P := by
  refine Triple.bind (mount_keeps P) fun m => Triple.ite (fun _ => ?_) fun _ => ?_
  · exact Triple.ite (fun _ => Triple.pure fun _ => id) fun _ => Triple.pure fun _ => id
  refine Triple.ite (fun _ => Triple.pure fun _ => id) fun _ => ?_
  refine Triple.bind (fatNextClus_keeps reads _) fun nxt => ?_
  exact Triple.ite (fun _ => Triple.pure fun _ => id) fun _ => Triple.pure fun _ => id

theorem dirRound_keeps (reads : KeptByReads P) (it : DirIter) :
    Triple P (dirRound it) fun _ => P := by
  refine Triple.ite (fun _ => Triple.pure fun _ => id) fun _ => ?_
  refine Triple.bind (dirLoadSector_keeps P it) fun loaded => ?_
  cases loaded with
  | none => exact Triple.pure fun _ => id
  | some it =>
      exact Triple.ite (fun _ => dirAdvance_keeps reads it) fun _ => Triple.pure fun _ => id

theorem fatDirnext_keeps (reads : KeptByReads P) (rounds : Nat) (it : DirIter) :
    Triple P (fatDirnext rounds it) fun _ => P := by
  refine Triple.bind (mount_keeps P) fun m => Triple.ite (fun _ => Triple.pure fun _ => id)
    fun _ => ?_
  exact Triple.loop_keeps (dirRound_keeps reads) rounds _

theorem searchDir_keeps (reads : KeptByReads P) (rounds : Nat) (accept : Found → Bool)
    (it : DirIter) :
    Triple P (searchDir rounds accept it) fun _ => P := by
  refine Triple.loop_keeps (fun it => ?_) rounds it
  refine Triple.bind (fatDirnext_keeps reads rounds it) fun result => ?_
  obtain ⟨result, it⟩ := result
  cases result <;> exact Triple.pure fun _ => id

theorem fatSearchNext_keeps (reads : KeptByReads P) (rounds : Nat) (it : DirIter)
    (pattern : List UInt8) :
    Triple P (fatSearchNext rounds it pattern) fun _ => P := by
  refine Triple.loop_keeps (fun it => ?_) rounds it
  refine Triple.bind (fatDirnext_keeps reads rounds it) fun result => ?_
  obtain ⟨result, it⟩ := result
  cases result with
  | error code => exact Triple.pure fun _ => id
  | ok found =>
      refine Triple.ite (fun _ => Triple.pure fun _ => id) fun _ => ?_
      exact Triple.ite (fun _ => Triple.pure fun _ => id) fun _ => Triple.pure fun _ => id

theorem fatSearchFirst_keeps (reads : KeptByReads P) (rounds : Nat) (pattern : List UInt8) :
    Triple P (fatSearchFirst rounds pattern) fun _ => P := by
  refine Triple.bind (mount_keeps P) fun m => ?_
  exact Triple.ite (fun _ => Triple.pure fun _ => id) fun _ => fatSearchNext_keeps reads rounds _ _

theorem walkDirs_keeps (reads : KeptByReads P) (rounds : Nat)
    (comps : List (List UInt8 × Bool)) (it : DirIter) :
    Triple P (walkDirs rounds comps it) fun _ => P := by
  induction comps generalizing it with
  | nil => exact Triple.pure fun _ => id
  | cons comp rest ih =>
      rw [walkDirs]
      refine Triple.bind (searchDir_keeps reads rounds _ it) fun result => ?_
      obtain ⟨found, it⟩ := result
      cases found with
      | none => exact Triple.pure fun _ => id
      | some found =>
          refine Triple.ite (fun _ => Triple.pure fun _ => id) fun _ => ?_
          exact Triple.bind (mount_keeps P) fun m => ih _

theorem fatDiropenPath_keeps (reads : KeptByReads P) (rounds : Nat) (path : List UInt8) :
    Triple P (fatDiropenPath rounds path) fun _ => P := by
  refine Triple.bind (mount_keeps P) fun m => ?_
  exact Triple.ite (fun _ => Triple.pure fun _ => id) fun _ => walkDirs_keeps reads rounds _ _

theorem findRaw_keeps (reads : KeptByReads P) (rounds : Nat) (it : DirIter) (raw : List UInt8) :
    Triple P (findRaw rounds it raw) fun _ => P :=
  Triple.bind (searchDir_keeps reads rounds _ it) fun _ => Triple.pure fun _ => id

theorem fatFindDirent_keeps (reads : KeptByReads P) (rounds : Nat) (raw : List UInt8) :
    Triple P (fatFindDirent rounds raw) fun _ => P :=
  Triple.bind (mount_keeps P) fun _ => findRaw_keeps reads rounds _ raw

theorem findDirentAt_keeps (reads : KeptByReads P) (rounds parent : Nat) (raw : List UInt8) :
    Triple P (findDirentAt rounds parent raw) fun _ => P :=
  Triple.bind (mount_keeps P) fun _ => findRaw_keeps reads rounds _ raw

theorem resolveParent_keeps (reads : KeptByReads P) (rounds : Nat) (path : List UInt8) :
    Triple P (resolveParent rounds path) fun _ => P := by
  refine Triple.bind (mount_keeps P) fun m => ?_
  split
  · exact Triple.pure fun _ => id
  refine Triple.ite (fun _ => Triple.pure fun _ => id) fun _ => ?_
  refine Triple.bind (fatDiropenPath_keeps reads rounds _) fun result => ?_
  cases result <;> exact Triple.pure fun _ => id

theorem scanSector_idle (lba : Nat) : Triple Idle (scanSector lba) fun _ => Idle := by
  refine loadWbuf_then (fun _ => id) ?_
  exact Triple.bind (wbuf_keeps _) fun _ => Triple.pure fun _ => Holding.idle

theorem scanFree_idle (lbas : List Nat) : Triple Idle (scanFree lbas) fun _ => Idle :=
  Triple.firstOf_keeps lbas fun lba _ => scanSector_idle lba

theorem zeroCluster_idle (clus : Nat) : Triple Idle (zeroCluster clus) fun _ => Idle := by
  refine Triple.bind (mount_keeps Idle) fun m => ?_
  refine Triple.bind (editWbuf_idle _) fun _ => ?_
  induction m.clusterLbas clus with
  | nil => exact Triple.pure fun _ => id
  | cons lba rest ih =>
      refine Triple.bind ?_ fun _ => ih
      exact Triple.bind (writeWbuf_idle lba) fun _ => Triple.pure fun _ => id

theorem extendDir_good (clus : Nat) :
    Triple Good (extendDir clus) fun nc d => Good d ∧ (nc ≠ none → Idle d) := by
  refine Triple.bind fatAllocCluster_good fun nc => Triple.ite (fun _ => ?_) fun _ => ?_
  · exact Triple.pure fun d post => ⟨post.1, fun absurd => (absurd rfl).elim⟩
  refine Triple.bind ((fatSetEntry_idle clus nc).strengthen fun _ => And.left) fun ok => ?_
  cases ok with
  | false => exact Triple.pure fun d idle => ⟨idle.good, fun _ => idle⟩
  | true =>
      refine Triple.bind (zeroCluster_idle nc) fun _ => ?_
      exact Triple.pure fun d idle => ⟨idle.good, fun _ => idle⟩

theorem findEmptyInRoot_idle : Triple Idle findEmptyInRoot fun _ => Idle := by
  refine Triple.bind (mount_keeps Idle) fun m => ?_
  refine Triple.bind (scanFree_idle _) fun found => ?_
  split <;> exact Triple.pure fun _ => id

end Directory

end Ncd15.Fat
