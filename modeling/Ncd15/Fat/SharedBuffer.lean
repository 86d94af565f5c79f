import Ncd15.Fat.Allocation

/-!
# The shared buffer across the public operations

Operations that only read keep the buffer good.  An operation that edits a
directory entry does so after a lookup that may have read the table: it is safe
when that lookup has left the buffer free.
-/

namespace Ncd15.Fat

open Ncd15.Library

section Reading

variable {P : Driver → Prop}

theorem countLoop_keeps (reads : KeptByReads P) (clusters : List Nat) (count : Nat) :
    Triple P (clusters.foldlM (fun count c => do
      pure (if (← fatNextClus c) = 0 then u32 (count + 1) else count)) count)
      fun _ => P := by
  induction clusters generalizing count with
  | nil => exact Triple.pure fun _ => id
  | cons c rest ih =>
      have step : Triple P (do
          pure (if (← fatNextClus c) = 0 then u32 (count + 1) else count)) fun _ => P :=
        Triple.bind (fatNextClus_keeps reads c) fun _ => Triple.pure fun _ => id
      exact Triple.bind step ih

theorem fatCountFreeClusters_keeps (reads : KeptByReads P) :
    Triple P fatCountFreeClusters fun _ => P := by
  refine Triple.bind (mount_keeps P) fun m => ?_
  exact Triple.ite (fun _ => Triple.pure fun _ => id) fun _ => countLoop_keeps reads _ 0

theorem walkFile_keeps (reads : KeptByReads P) (rounds : Nat) (fp : FatFile)
    (comps : List (List UInt8 × Bool)) (it : DirIter) :
    Triple P (walkFile rounds fp comps it) fun _ => P := by
  induction comps generalizing it with
  | nil => exact Triple.pure fun _ => id
  | cons comp rest ih =>
      rw [walkFile]
      refine Triple.bind (searchDir_keeps reads rounds _ it) fun result => ?_
      obtain ⟨found, it⟩ := result
      cases found with
      | none => exact Triple.pure fun _ => id
      | some found =>
          refine Triple.ite (fun _ => ?_) fun _ => ?_
          · refine Triple.ite (fun _ => Triple.pure fun _ => id) fun _ => ?_
            exact Triple.bind (mount_keeps P) fun m => ih _
          · exact Triple.ite (fun _ => Triple.pure fun _ => id) fun _ => Triple.pure fun _ => id

theorem fatFopen_keeps (reads : KeptByReads P) (rounds : Nat) (path : List UInt8) (fp : FatFile) :
    Triple P (fatFopen rounds path fp) fun _ => P := by
  refine Triple.bind (mount_keeps P) fun m => ?_
  exact Triple.ite (fun _ => Triple.pure fun _ => id) fun _ => walkFile_keeps reads rounds fp _ _

theorem readSec_idle (lba : Nat) : Triple Idle (readSec lba) fun _ => Idle := by
  intro d idle r d' run
  unfold readSec at run
  split at run
  · obtain ⟨-, rfl⟩ := Prod.mk.inj (Option.some.inj run)
    exact idle
  split at run
  · obtain ⟨-, rfl⟩ := Prod.mk.inj (Option.some.inj run)
    exact idle
  · obtain ⟨-, rfl⟩ := Prod.mk.inj (Option.some.inj run)
    exact idle

theorem fatFread_good (rounds : Nat) (fp : FatFile) (max : Nat) :
    Triple Good (fatFread rounds fp max) fun _ => Good := by
  refine Triple.bind (mount_keeps Good) fun m => ?_
  refine Triple.ite (fun _ => Triple.pure fun _ => id) fun _ => ?_
  refine Triple.ite (fun _ => Triple.pure fun _ => id) fun _ => ?_
  refine Triple.bind (Triple.loop_keeps (fun s => ?_) rounds _) fun _ => Triple.pure fun _ => id
  refine Triple.ite (fun _ => Triple.pure fun _ => id) fun _ => ?_
  refine Triple.bind invalidate_idle fun _ => Triple.bind (readSec_idle _) fun sector => ?_
  cases sector with
  | none => exact Triple.pure fun _ => Idle.good
  | some sector =>
      refine Triple.bind (editWbuf_idle _) fun _ => Triple.ite (fun _ => ?_) fun _ => ?_
      · refine Triple.bind (fatNextClus_ofIdle _) fun nxt => ?_
        exact Triple.ite (fun _ => Triple.pure fun _ => id) fun _ => Triple.pure fun _ => id
      · exact Triple.pure fun _ => Idle.good

theorem skipClusters_keeps (reads : KeptByReads P) (skip : Nat) (fp : FatFile) :
    Triple P (skipClusters skip fp) fun _ => P := by
  induction skip generalizing fp with
  | zero => exact Triple.pure fun _ => id
  | succ skip ih =>
      refine Triple.bind (fatNextClus_keeps reads _) fun nxt => ?_
      exact Triple.ite (fun _ => Triple.pure fun _ => id) fun _ => ih _

theorem fatFseek_keeps (reads : KeptByReads P) (fp : FatFile) (pos : Nat) :
    Triple P (fatFseek fp pos) fun _ => P := by
  refine Triple.bind (mount_keeps P) fun m => ?_
  exact Triple.ite (fun _ => Triple.pure fun _ => id) fun _ => skipClusters_keeps reads _ _

end Reading

section Entries

theorem modifyEntry_idle (slot : Slot) (edit : Nat → Sector → Sector) :
    Triple Idle (modifyEntry slot edit) fun _ => Idle :=
  loadWbuf_then (fun _ => id) (updateSec_idle _ _)

theorem loadFirstClus_idle (slot : Slot) :
    Triple Idle (loadFirstClus slot) fun _ => Idle := by
  refine loadWbuf_then (fun _ => id) ?_
  exact Triple.bind (wbuf_keeps _) fun _ => Triple.pure fun _ => Holding.idle

theorem freeFile_idle (rounds first : Nat) :
    Triple Idle (freeFile rounds first) fun _ => Idle := by
  refine Triple.ite (fun _ => ?_) fun _ => Triple.pure fun _ => id
  exact Triple.bind (fatFreeChain_idle rounds first) fun _ => Triple.pure fun _ => id

theorem truncateFile_idle (rounds : Nat) (slot : Slot) :
    Triple Idle (truncateFile rounds slot) fun _ => Idle := by
  refine Triple.bind (loadFirstClus_idle slot) fun first => ?_
  cases first with
  | none => exact Triple.pure fun _ => id
  | some first => exact Triple.bind (freeFile_idle rounds first) fun _ => modifyEntry_idle _ _

theorem fatFflush_good (fp : FatFile) : Triple Good (fatFflush fp) fun _ => Good := by
  refine Triple.bind (mount_keeps Good) fun m => ?_
  refine Triple.ite (fun _ => Triple.pure fun _ => id) fun _ => ?_
  refine Triple.bind invalidate_idle fun _ => Triple.bind (modifyEntry_idle _ _) fun ok => ?_
  exact Triple.pure fun _ => Idle.good

end Entries

section Lookups

def Driver.invalidated (d : Driver) : Driver := { d with fatBufValid := false }

theorem Good.invalidated {d : Driver} (good : Good d) : Idle d.invalidated :=
  ⟨⟨good.1.1, good.1.2⟩, rfl⟩

/-- A lookup that finds its entry has not read the table. -/
def FindsIdle {α : Type} (lookup : DriverM α) (isFound : α → Bool) (d : Driver) : Prop :=
  ∀ found d', lookup d = some (found, d') → isFound found = true → d'.fatBufValid = false

theorem lookup_idle {α : Type} {lookup : DriverM α} {isFound : α → Bool} {d d' : Driver}
    {found : α} (keeps : ∀ b m, Triple (GoodAt b m) lookup fun _ => GoodAt b m) (good : Good d)
    (clear : FindsIdle lookup isFound d) (run : lookup d = some (found, d')) :
    GoodAt d.blk d.m d' ∧ (isFound found = true → Idle d') := by
  have after := keeps d.blk d.m d ⟨good, rfl, rfl⟩ found d' run
  exact ⟨after, fun isSome => ⟨after.1.1, clear found d' run isSome⟩⟩

/-- A function that changes a directory entry looks it up first; what it does then begins
with a good driver, and with an idle one when there is something to change. -/
theorem changeEntry_good {α β : Type} {lookup : DriverM α} {next : α → DriverM β} {failed : β}
    {isFound : α → Bool} {Clear : Driver → Prop}
    (keeps : ∀ b m, Triple (GoodAt b m) lookup fun _ => GoodAt b m)
    (clear : ∀ d, Clear d → FindsIdle lookup isFound d.invalidated)
    (rest : ∀ d found d', Clear d → lookup d.invalidated = some (found, d') →
      GoodAt d.blk d.m d' → (isFound found = true → Idle d') →
      ∀ result d'', next found d' = some (result, d'') → Good d'') :
    Triple (fun d => Good d ∧ Clear d) (do
      if !(← mount).valid then pure failed
      else
        invalidate
        let found ← lookup
        next found) fun _ => Good := by
  rintro d ⟨good, isClear⟩ result d' run
  rw [Prog.bind_eq_of_run (mount_run d)] at run
  split at run
  · obtain ⟨-, rfl⟩ := Prod.mk.inj (Option.some.inj run)
    exact good
  rw [Prog.bind_eq_of_run (invalidate_run d)] at run
  obtain ⟨found, d₁, look, run⟩ := Prog.bind_eq_some run
  obtain ⟨good₁, idle₁⟩ := lookup_idle keeps good.invalidated.good (clear d isClear) look
  exact rest d found d₁ isClear look good₁ idle₁ result d' run

end Lookups

section FreeSlots

/-- The result of a scan for a free entry. -/
def BlkDev.scanResult (b : BlkDev) : List Nat → Option (Except Unit Slot)
  | [] => none
  | lba :: rest =>
      if b.Has lba then
        match freeOffset (b.sec lba) with
        | some off => some (.ok { lba, off })
        | none => b.scanResult rest
      else some (.error ())

/-- A scan changes nothing but the contents of the shared buffer. -/
theorem scanFree_run (lbas : List Nat) (d : Driver) :
    ∃ s, scanFree lbas d = some (d.blk.scanResult lbas, { d with fatWbuf := s }) := by
  induction lbas generalizing d with
  | nil => exact ⟨d.fatWbuf, rfl⟩
  | cons lba rest ih =>
      by_cases has : d.blk.Has lba
      · have loaded : scanSector lba d =
            some ((freeOffset (d.disk lba)).map fun off => .ok { lba, off },
              { d with fatWbuf := d.disk lba }) := loadWbuf_then_run has _ _
        cases found : freeOffset (d.disk lba) with
        | some off =>
            rw [found] at loaded
            refine ⟨d.disk lba, ?_⟩
            rw [scanFree, Prog.firstOf_some loaded, BlkDev.scanResult, if_pos has, found]
        | none =>
            rw [found] at loaded
            obtain ⟨s, run⟩ := ih { d with fatWbuf := d.disk lba }
            refine ⟨s, ?_⟩
            rw [scanFree, Prog.firstOf_none loaded, BlkDev.scanResult, if_pos has, found]
            exact run
      · have failed : scanSector lba d = some (some (.error ()), d) := by
          rw [scanSector, Prog.bind_run, loadWbuf, if_neg has]
          rfl
        refine ⟨d.fatWbuf, ?_⟩
        rw [scanFree, Prog.firstOf_some failed, BlkDev.scanResult, if_neg has]

theorem scanResult_ne_none {b : BlkDev} {lbas : List Nat} {lba : Nat} (mem : lba ∈ lbas)
    (room : freeOffset (b.sec lba) ≠ none) : b.scanResult lbas ≠ none := by
  induction lbas with
  | nil => simp at mem
  | cons first rest ih =>
      rw [BlkDev.scanResult]
      split
      · cases found : freeOffset (b.sec first) with
        | some off => simp
        | none =>
            rcases List.mem_cons.mp mem with rfl | later
            · exact absurd found room
            · exact ih later
      · simp

/-- The end of a chain. -/
def Driver.EndsAt (d : Driver) (c : Nat) : Prop :=
  d.m.Sane d.blk.capacity ∧ d.m.IsCluster c ∧ d.m.next d.disk c = noClus

/-- The search for a free entry from a cluster on does not follow a link: there is
room in the cluster, or the chain ends there. -/
def Driver.HasRoom (d : Driver) (c : Nat) : Prop :=
  (∃ lba ∈ d.m.clusterLbas c, freeOffset (d.disk lba) ≠ none) ∨ d.EndsAt c

theorem endsAt_congr {d d' : Driver} {c : Nat} (ends : d.EndsAt c) (m : d'.m = d.m)
    (capacity : d'.blk.capacity = d.blk.capacity)
    (same : ∀ lba, ¬ d.m.Outside lba → d'.disk lba = d.disk lba) : d'.EndsAt c := by
  refine ⟨by rw [m, capacity]; exact ends.1, by rw [m]; exact ends.2.1, ?_⟩
  rw [m, Mount.next, ← Mount.link, link_congr same ends.1.fats]
  exact ends.2.2

theorem Driver.EndsAt.used {d : Driver} {c : Nat} (ends : d.EndsAt c) :
    d.m.link d.disk c ≠ 0 := by
  intro zero
  have next := next_eq_zero.mpr zero
  rw [ends.2.2] at next
  exact absurd next (by decide)

theorem Idle.free {d : Driver} (idle : Idle d) (sane : d.m.Sane d.blk.capacity) : Free d :=
  ⟨⟨idle.good, sane⟩, idle.2⟩

/-- A slot that was found leaves the buffer free. -/
def SlotIdle (slot : Option Slot) (d : Driver) : Prop := Good d ∧ (slot ≠ none → Idle d)

theorem Idle.slotIdle {slot : Option Slot} {d : Driver} (idle : Idle d) : SlotIdle slot d :=
  ⟨idle.good, fun _ => idle⟩

/-- What a round of the search can do when it follows no link. -/
inductive EmptyRound (d d' : Driver) (c : Nat) : Nat ⊕ Option Slot → Prop
  | found (slot : Slot) (idle : Idle d') (blk : d'.blk = d.blk) (m : d'.m = d.m)
      (scan : d.blk.scanResult (d.m.clusterLbas c) = some (.ok slot)) :
      EmptyRound d d' c (.inr (some slot))
  | failed (good : Good d') : EmptyRound d d' c (.inr none)
  | extended (nc : Nat) (d₁ : Driver) (blk : d₁.blk = d.blk) (m : d₁.m = d.m)
      (ends : d.EndsAt c) (ext : Extended d₁ d' c nc) : EmptyRound d d' c (.inl nc)

theorem emptyRound_cases {d d' : Driver} {c : Nat} {result : Nat ⊕ Option Slot} (idle : Idle d)
    (room : d.HasRoom c) (run : emptyRound d.m c d = some (result, d')) :
    EmptyRound d d' c result := by
  rw [emptyRound] at run
  split at run
  · obtain ⟨rfl, rfl⟩ := Prod.mk.inj (Option.some.inj run)
    exact .failed idle.good
  obtain ⟨s, scan⟩ := scanFree_run (d.m.clusterLbas c) d
  rw [Prog.bind_eq_of_run scan] at run
  have idle₁ := idle.edited s
  cases scanned : d.blk.scanResult (d.m.clusterLbas c) with
  | some found =>
      rw [scanned] at run
      cases found with
      | error =>
          obtain ⟨rfl, rfl⟩ := Prod.mk.inj (Option.some.inj run)
          exact .failed idle₁.good
      | ok slot =>
          obtain ⟨rfl, rfl⟩ := Prod.mk.inj (Option.some.inj run)
          exact .found slot idle₁ rfl rfl scanned
  | none =>
      rw [scanned] at run
      rcases room with ⟨lba, mem, isFree⟩ | ends
      · exact absurd scanned (scanResult_ne_none mem isFree)
      have ready₁ : Ready { d with fatWbuf := s } := ⟨idle₁.good, ends.1⟩
      obtain ⟨d₂, run₂, step₂⟩ := fatNextClus_run ready₁.good ends.1 ends.2.1.2
      have last : d.m.next d.disk c = noClus := ends.2.2
      have used : d₂.m.link d₂.disk c ≠ 0 := by
        rw [step₂.m, step₂.disk]
        exact ends.used
      have isCluster : d₂.m.IsCluster c := by
        rw [step₂.m]
        exact ends.2.1
      replace run := (Prog.bind_eq_of_run run₂).symm.trans run
      rw [if_pos last] at run
      rcases extendDir_run (step₂.ready ready₁) isCluster used with
        ⟨nc, d₃, run₃, ext⟩ | ⟨-, d₃, run₃, step₃⟩
      · rw [Prog.bind_eq_of_run run₃] at run
        obtain ⟨rfl, rfl⟩ := Prod.mk.inj (Option.some.inj run)
        exact .extended nc d₂ step₂.blk step₂.m ends ext
      · rw [Prog.bind_eq_of_run run₃] at run
        obtain ⟨rfl, rfl⟩ := Prod.mk.inj (Option.some.inj run)
        exact .failed step₃.good

/-- An extended chain ends at its new cluster. -/
theorem Extended.endsAt {d d' : Driver} {c nc : Nat} (ext : Extended d d' c nc)
    (sane : d.m.Sane d.blk.capacity) : d'.EndsAt nc := by
  have m : d'.m = d.m := ext.step.m
  refine ⟨ext.step.free.1.sane, ?_, ?_⟩
  · rw [m]
    exact ext.isCluster
  · rw [m]
    exact ext.next_new sane

theorem emptyRound_room (m : Mount) (c : Nat) :
    Triple (fun d => d.m = m ∧ Idle d ∧ d.HasRoom c) (emptyRound m c)
      (Sum.elim (fun next d => d.m = m ∧ Idle d ∧ d.HasRoom next) SlotIdle) := by
  rintro d ⟨rfl, idle, room⟩ result d' run
  cases emptyRound_cases idle room run with
  | found slot idle' => exact idle'.slotIdle
  | failed good => exact ⟨good, fun absurd => (absurd rfl).elim⟩
  | extended nc d₁ blk m ends ext =>
      have sane : d₁.m.Sane d₁.blk.capacity := by
        rw [blk, m]
        exact ends.1
      exact ⟨ext.step.m.trans m, ext.step.free.idle, .inr (ext.endsAt sane)⟩

theorem findEmptyInChain_room (rounds c : Nat) :
    Triple (fun d => Idle d ∧ d.HasRoom c) (findEmptyInChain rounds c) SlotIdle := by
  rintro d ⟨idle, room⟩ slot d' run
  rw [findEmptyInChain, Prog.bind_eq_of_run (mount_run d)] at run
  exact Triple.loop (emptyRound_room d.m) rounds c d ⟨rfl, idle, room⟩ slot d' run

theorem findEmptyInRoot_slotIdle : Triple Idle findEmptyInRoot SlotIdle :=
  findEmptyInRoot_idle.weaken fun _ _ => Idle.slotIdle

theorem hasRoom_congr {d d' : Driver} {c : Nat} (room : d.HasRoom c) (blk : d'.blk = d.blk)
    (m : d'.m = d.m) : d'.HasRoom c := by
  unfold Driver.HasRoom Driver.EndsAt Driver.disk at room ⊢
  rwa [blk, m]

end FreeSlots

section RootOperations

/-- `fat_fcreate` meets no link in its way: the entry it finds is found without
reading the table, and when it finds none there is room for a new one. -/
structure CreateClear (rounds : Nat) (path : List UInt8) (d : Driver) : Prop where
  found : FindsIdle (fatFindDirent rounds (buildRawName (stripSlash path))) Option.isSome
    d.invalidated
  room : d.m.type = .fat32 →
    ∀ d', fatFindDirent rounds (buildRawName (stripSlash path)) d.invalidated =
      some (none, d') → d.HasRoom d.m.rootClus

theorem fatFindEmptyDirent_room (rounds : Nat) :
    Triple (fun d => Good d ∧ (d.m.type = .fat32 → d.HasRoom d.m.rootClus))
      (fatFindEmptyDirent rounds) SlotIdle := by
  rintro d ⟨good, room⟩ slot d' run
  rw [fatFindEmptyDirent, Prog.bind_eq_of_run (invalidate_run d),
    Prog.bind_eq_of_run (mount_run _)] at run
  split at run
  · exact findEmptyInRoot_slotIdle _ good.invalidated slot d' run
  · rename_i fat32
    have room' : d.invalidated.HasRoom d.m.rootClus :=
      hasRoom_congr (room (not_not.mp fat32)) rfl rfl
    exact findEmptyInChain_room rounds d.m.rootClus _ ⟨good.invalidated, room'⟩ slot d' run

theorem fatFcreate_good {rounds : Nat} {path : List UInt8} {fp : FatFile} :
    Triple (fun d => Good d ∧ CreateClear rounds path d) (fatFcreate rounds path fp)
      fun _ => Good := by
  refine changeEntry_good (fun b m => fatFindDirent_keeps (readFatSec_goodAt b m) rounds _)
    (fun d clear => clear.found) fun d found d₁ clear lookup good idle₁ result d' run => ?_
  obtain ⟨good₁, blk₁, m₁⟩ := good
  cases found with
  | some slot =>
      have rest : Triple Idle (do
          if !(← truncateFile rounds slot) then pure (-1, fp)
          else pure (0, FatFile.created slot)) fun _ => Good := by
        refine Triple.bind (truncateFile_idle rounds slot) fun ok => ?_
        exact Triple.ite (fun _ => Triple.pure fun _ => Idle.good)
          fun _ => Triple.pure fun _ => Idle.good
      exact rest d₁ (idle₁ rfl) result d' run
  | none =>
      have room : d₁.m.type = .fat32 → d₁.HasRoom d₁.m.rootClus := by
        intro fat32
        rw [m₁] at fat32 ⊢
        exact hasRoom_congr (clear.room fat32 d₁ lookup) blk₁ m₁
      obtain ⟨slot, d₂, empty, run⟩ := Prog.bind_eq_some run
      have idle₂ := fatFindEmptyDirent_room rounds d₁ ⟨good₁, room⟩ slot d₂ empty
      cases slot with
      | none =>
          obtain ⟨-, rfl⟩ := Prod.mk.inj (Option.some.inj run)
          exact idle₂.1
      | some slot =>
          have rest : Triple Idle (do
              if !(← modifyEntry slot fun off =>
                editNew off (buildRawName (stripSlash path)) attrArchive) then pure (-1, fp)
              else pure (0, FatFile.created slot)) fun _ => Good := by
            refine Triple.bind (modifyEntry_idle slot _) fun ok => ?_
            exact Triple.ite (fun _ => Triple.pure fun _ => Idle.good)
              fun _ => Triple.pure fun _ => Idle.good
          exact rest d₂ (idle₂.2 (by simp)) result d' run

theorem loadFirstClus_then {slot : Slot} {failed : Int} {next : Nat → DriverM Int}
    (rest : ∀ first, Triple Idle (next first) fun _ => Idle) :
    Triple Idle (do
      match ← loadFirstClus slot with
      | none => pure failed
      | some first => next first) fun _ => Idle := by
  refine Triple.bind (loadFirstClus_idle slot) fun first => ?_
  cases first with
  | none => exact Triple.pure fun _ => id
  | some first => exact rest first

theorem fatFunlink_good {rounds : Nat} {path : List UInt8} :
    Triple (fun d => Good d ∧
        FindsIdle (fatFindDirent rounds (buildRawName (stripSlash path))) Option.isSome
          d.invalidated)
      (fatFunlink rounds path) fun _ => Good := by
  refine changeEntry_good (fun b m => fatFindDirent_keeps (readFatSec_goodAt b m) rounds _)
    (fun d => id) fun d found d₁ clear lookup good₁ idle₁ result d' run => ?_
  cases found with
  | none =>
      obtain ⟨-, rfl⟩ := Prod.mk.inj (Option.some.inj run)
      exact good₁.1
  | some slot =>
      have rest : Triple Idle (do
          match ← loadFirstClus slot with
          | none => pure (-1)
          | some first => do
              freeFile rounds first
              pure (if ← modifyEntry slot editDeleted then (0 : Int) else -1)) fun _ => Idle := by
        refine loadFirstClus_then fun first => ?_
        refine Triple.bind (freeFile_idle rounds first) fun _ => ?_
        exact Triple.bind (modifyEntry_idle slot _) fun ok => Triple.pure fun _ => id
      exact (rest d₁ (idle₁ rfl) result d' run).good

theorem renameLookup_keeps {P : Driver → Prop} (reads : KeptByReads P) (rounds : Nat)
    (old new : List UInt8) : Triple P (renameLookup rounds old new) fun _ => P := by
  refine Triple.bind (fatFindDirent_keeps reads rounds _) fun found => ?_
  cases found with
  | some slot => exact Triple.pure fun _ => id
  | none => exact fatFindDirent_keeps reads rounds _

theorem fatFrename_good {rounds : Nat} {old new : List UInt8} :
    Triple (fun d => Good d ∧ FindsIdle (renameLookup rounds old new) Option.isSome d.invalidated)
      (fatFrename rounds old new) fun _ => Good := by
  refine changeEntry_good (fun b m => renameLookup_keeps (readFatSec_goodAt b m) rounds old new)
    (fun d => id) fun d found d₁ clear lookup good₁ idle₁ result d' run => ?_
  cases found with
  | none =>
      obtain ⟨-, rfl⟩ := Prod.mk.inj (Option.some.inj run)
      exact good₁.1
  | some slot =>
      obtain ⟨ok, d₂, edited, run⟩ := Prog.bind_eq_some run
      obtain ⟨-, rfl⟩ := Prod.mk.inj (Option.some.inj run)
      exact (modifyEntry_idle slot _ d₁ (idle₁ rfl) ok _ edited).good

end RootOperations

section MountData

/-- A property that no access to a buffer or the device changes. -/
structure KeptByIo (P : Driver → Prop) : Prop where
  reads : KeptByReads P
  load : ∀ lba, Triple P (loadWbuf lba) fun _ => P
  write : ∀ lba, Triple P (writeWbuf lba) fun _ => P
  edit : ∀ edit, Triple P (editWbuf edit) fun _ => P
  note : ∀ lba edit, Triple P (noteUpdate lba edit) fun _ => P
  invalidate : Triple P invalidate fun _ => P

namespace KeptByIo

variable {P : Driver → Prop}

theorem updateSec (kept : KeptByIo P) (lba : Nat) (edit : Sector → Sector) :
    Triple P (updateSec lba edit) fun _ => P :=
  Triple.bind (kept.note lba edit) fun _ => Triple.bind (kept.edit edit) fun _ => kept.write lba

theorem load_then (kept : KeptByIo P) {lba : Nat} {α : Type} {failed : α} {next : DriverM α}
    (rest : Triple P next fun _ => P) :
    Triple P (do if !(← loadWbuf lba) then pure failed else next) fun _ => P :=
  Triple.bind (kept.load lba) fun _ => Triple.ite (fun _ => Triple.pure fun _ => id) fun _ => rest

theorem update_then (kept : KeptByIo P) {lba : Nat} {edit : Sector → Sector} {α : Type}
    {failed : α} {next : DriverM α} (rest : Triple P next fun _ => P) :
    Triple P (do if !(← Fat.updateSec lba edit) then pure failed else next) fun _ => P :=
  Triple.bind (kept.updateSec lba edit) fun _ =>
    Triple.ite (fun _ => Triple.pure fun _ => id) fun _ => rest

theorem fatSetEntry (kept : KeptByIo P) (clus value : Nat) :
    Triple P (fatSetEntry clus value) fun _ => P := by
  refine Triple.bind (mount_keeps _) fun m' => Triple.bind kept.invalidate fun _ => ?_
  refine kept.load_then (Triple.ite (fun _ => ?_) fun _ => ?_)
  · refine Triple.bind (wbuf_keeps _) fun buf => kept.update_then ?_
    refine kept.load_then (kept.update_then (kept.load_then ?_))
    exact kept.update_then (kept.load_then (kept.updateSec _ _))
  · refine kept.update_then (Triple.bind (Triple.firstOf_keeps _ fun k _ => ?_) fun _ => ?_)
    · exact Triple.bind (kept.write _) fun _ => Triple.pure fun _ => id
    · exact Triple.pure fun _ => id

theorem fatAllocCluster (kept : KeptByIo P) : Triple P fatAllocCluster fun _ => P := by
  refine Triple.bind (mount_keeps _) fun m' => ?_
  refine Triple.bind (Triple.firstOf_keeps _ fun c _ => ?_) fun _ => Triple.pure fun _ => id
  refine Triple.bind (fatNextClus_keeps kept.reads c) fun nxt => ?_
  refine Triple.ite (fun _ => ?_) fun _ => Triple.pure fun _ => id
  refine Triple.bind (kept.fatSetEntry c _) fun ok => ?_
  exact Triple.ite (fun _ => Triple.pure fun _ => id) fun _ => Triple.pure fun _ => id

theorem writeDirCluster (kept : KeptByIo P) (clus parent : Nat) :
    Triple P (writeDirCluster clus parent) fun _ => P := by
  refine Triple.bind (mount_keeps _) fun m' => Triple.bind (kept.edit _) fun _ => ?_
  refine Triple.bind (kept.write _) fun ok => ?_
  refine Triple.ite (fun _ => Triple.pure fun _ => id) fun _ => ?_
  refine Triple.bind (kept.edit _) fun _ => ?_
  refine Triple.bind (Triple.firstOf_keeps _ fun lba _ => ?_) fun _ => Triple.pure fun _ => id
  exact Triple.bind (kept.write lba) fun _ => Triple.pure fun _ => id

end KeptByIo

def MountIs (m : Mount) (d : Driver) : Prop := d.m = m

/-- The mount data stay, and no write is going to fail. -/
def Faultless (m : Mount) (d : Driver) : Prop := d.m = m ∧ d.blk.faults = []

/-- A property of the mount data and of whether a write is going to fail. -/
theorem keptByIo_of {P : Driver → Prop} (depends : ∀ d d' : Driver, d'.m = d.m →
    (d.blk.faults = [] → d'.blk.faults = []) → P d → P d') : KeptByIo P where
  reads := by
    intro lba d holds ok d' run
    unfold readFatSec at run
    split at run
    · obtain ⟨-, rfl⟩ := Prod.mk.inj (Option.some.inj run)
      exact depends d _ rfl id holds
    split at run <;> obtain ⟨-, rfl⟩ := Prod.mk.inj (Option.some.inj run) <;>
      exact depends d _ rfl id holds
  load := by
    intro lba d holds ok d' run
    unfold loadWbuf at run
    split at run <;> obtain ⟨-, rfl⟩ := Prod.mk.inj (Option.some.inj run) <;>
      exact depends d _ rfl id holds
  write := by
    intro lba d holds ok d' run
    have tail (none : d.blk.faults = []) : d.blk.faults.tail = [] := by
      rw [none]
      rfl
    unfold writeWbuf at run
    split at run
    · obtain ⟨-, rfl⟩ := Prod.mk.inj (Option.some.inj run)
      exact holds
    split at run <;> obtain ⟨-, rfl⟩ := Prod.mk.inj (Option.some.inj run) <;>
      exact depends d _ rfl tail holds
  edit := by
    rintro edit d holds u d' ⟨⟩
    exact depends d _ rfl id holds
  note := by
    rintro lba edit d holds u d' ⟨⟩
    exact depends d _ rfl id holds
  invalidate := by
    rintro d holds u d' ⟨⟩
    exact depends d _ rfl id holds

variable (m : Mount)

theorem mountIs_io : KeptByIo (MountIs m) := keptByIo_of fun _ _ same _ holds => same.trans holds

theorem faultless_io : KeptByIo (Faultless m) :=
  keptByIo_of fun _ _ same healthy holds => ⟨same.trans holds.1, healthy holds.2⟩

theorem readFatSec_mount : KeptByReads (MountIs m) := (mountIs_io m).reads

theorem updateSec_mount (lba : Nat) (edit : Sector → Sector) :
    Triple (MountIs m) (updateSec lba edit) fun _ => MountIs m := (mountIs_io m).updateSec lba edit

theorem fatAllocCluster_mount :
    Triple (MountIs m) fatAllocCluster fun _ => MountIs m := (mountIs_io m).fatAllocCluster

theorem writeDirCluster_mount (clus parent : Nat) :
    Triple (MountIs m) (writeDirCluster clus parent) fun _ => MountIs m :=
  (mountIs_io m).writeDirCluster clus parent

end MountData

section PathOperations

theorem rmdirLookup_keeps {P : Driver → Prop} (reads : KeptByReads P) (rounds : Nat)
    (path : List UInt8) : Triple P (rmdirLookup rounds path) fun _ => P := by
  refine Triple.bind (resolveParent_keeps reads rounds path) fun parent => ?_
  cases parent with
  | error code => exact Triple.pure fun _ => id
  | ok parent =>
      refine Triple.bind (findDirentAt_keeps reads rounds parent _) fun found => ?_
      cases found <;> exact Triple.pure fun _ => id

/-- A chain that is not empty leaves the buffer free, whatever it held before. -/
theorem fatFreeChain_good (rounds first : Nat) :
    Triple (fun d => Good d ∧ 2 ≤ first ∧ first < d.m.clusEnd) (fatFreeChain rounds first)
      fun _ => Idle := by
  rintro d ⟨good, inRange⟩ ok d' run
  rw [fatFreeChain, Prog.bind_eq_of_run (mount_run d)] at run
  cases rounds with
  | zero => simp [Prog.loop] at run
  | succ rounds =>
      obtain ⟨result, d₁, round, run⟩ := Prog.bind_eq_some run
      have idle := freeRound_idle d.m inRange d good result d₁ round
      cases result with
      | inl next =>
          exact freeLoop_idle d.m rounds next d₁ idle ok d' run
      | inr done =>
          obtain ⟨-, rfl⟩ := Prod.mk.inj (Option.some.inj run)
          exact idle

/-- `fat_rmdir` meets no link on the way to the entry, and the entry names a cluster
of the volume. -/
structure RmdirClear (rounds : Nat) (path : List UInt8) (d : Driver) : Prop where
  found : FindsIdle (rmdirLookup rounds path) Except.isOk d.invalidated
  chain : ∀ slot d', rmdirLookup rounds path d.invalidated = some (.ok slot, d') →
    firstClusAt (d.disk slot.lba) slot.off < d.m.clusEnd

theorem rmdirSlot_good (rounds : Nat) (slot : Slot) :
    Triple (fun d => Idle d ∧ firstClusAt (d.disk slot.lba) slot.off < d.m.clusEnd)
      (rmdirSlot rounds slot) fun _ => Good := by
  rintro d ⟨idle, chain⟩ result d' run
  by_cases has : d.blk.Has slot.lba
  · rw [rmdirSlot, loadWbuf_then_run has, Prog.bind_eq_of_run (wbuf_run _)] at run
    have idle₁ := idle.edited (d.disk slot.lba)
    split at run
    · obtain ⟨-, rfl⟩ := Prod.mk.inj (Option.some.inj run)
      exact idle₁.good
    split at run
    · obtain ⟨-, rfl⟩ := Prod.mk.inj (Option.some.inj run)
      exact idle₁.good
    rename_i atLeast
    rw [Prog.bind_eq_of_run (mount_run _)] at run
    obtain ⟨⟨found, it⟩, d₂, search, run⟩ := Prog.bind_eq_some run
    obtain ⟨good₂, blk₂, m₂⟩ := searchDir_keeps (readFatSec_goodAt d.blk d.m) rounds _ _ _
      ⟨idle₁.good, rfl, rfl⟩ _ _ search
    cases found with
    | some found =>
        obtain ⟨-, rfl⟩ := Prod.mk.inj (Option.some.inj run)
        exact good₂
    | none =>
        have inRange : 2 ≤ firstClusAt (d.disk slot.lba) slot.off ∧
            firstClusAt (d.disk slot.lba) slot.off < d₂.m.clusEnd :=
          ⟨Nat.not_lt.mp atLeast, by rw [m₂]; exact chain⟩
        have rest : Triple Idle (do
            pure (if ← modifyEntry slot editDeleted then (0 : Int) else -1)) fun _ => Idle :=
          Triple.bind (modifyEntry_idle slot _) fun ok => Triple.pure fun _ => id
        obtain ⟨ok, d₃, freed, run⟩ := Prog.bind_eq_some run
        have idle₃ := fatFreeChain_good rounds _ d₂ ⟨good₂, inRange⟩ ok d₃ freed
        split at run
        · obtain ⟨-, rfl⟩ := Prod.mk.inj (Option.some.inj run)
          exact idle₃.good
        · exact (rest d₃ idle₃ result d' run).good
  · rw [rmdirSlot, Prog.bind_run, loadWbuf, if_neg has] at run
    obtain ⟨-, rfl⟩ := Prod.mk.inj (Option.some.inj run)
    exact idle.good

theorem fatRmdir_good {rounds : Nat} {path : List UInt8} :
    Triple (fun d => Good d ∧ RmdirClear rounds path d) (fatRmdir rounds path)
      fun _ => Good := by
  refine changeEntry_good (fun b m => rmdirLookup_keeps (readFatSec_goodAt b m) rounds path)
    (fun d clear => clear.found) fun d found d₁ clear lookup good idle₁ result d' run => ?_
  obtain ⟨good₁, blk₁, m₁⟩ := good
  cases found with
  | error code =>
      obtain ⟨-, rfl⟩ := Prod.mk.inj (Option.some.inj run)
      exact good₁
  | ok slot =>
      have chain : firstClusAt (d₁.disk slot.lba) slot.off < d₁.m.clusEnd := by
        rw [Driver.disk, blk₁, m₁]
        exact clear.chain slot d₁ lookup
      exact rmdirSlot_good rounds slot d₁ ⟨idle₁ rfl, chain⟩ result d' run

/-- `find_empty_dirent_at` does not follow a link. -/
def Driver.HasDirRoom (d : Driver) (parent : Nat) : Prop :=
  parent ≠ 0 ∨ d.m.type = .fat32 → d.HasRoom (if parent ≠ 0 then parent else d.m.rootClus)

theorem findEmptyDirentAt_room (rounds parent : Nat) :
    Triple (fun d => Good d ∧ d.HasDirRoom parent) (findEmptyDirentAt rounds parent)
      SlotIdle := by
  rintro d ⟨good, room⟩ slot d' run
  rw [findEmptyDirentAt, Prog.bind_eq_of_run (invalidate_run d),
    Prog.bind_eq_of_run (mount_run _)] at run
  split at run
  · exact findEmptyInRoot_slotIdle _ good.invalidated slot d' run
  · rename_i inChain
    have isChain : parent ≠ 0 ∨ d.m.type = .fat32 := by
      by_contra neither
      rw [not_or, not_not] at neither
      exact inChain neither
    have room' : d.invalidated.HasRoom (if parent ≠ 0 then parent else d.m.rootClus) :=
      hasRoom_congr (room isChain) rfl rfl
    exact findEmptyInChain_room rounds _ _ ⟨good.invalidated, room'⟩ slot d' run

/-- `fat_mkdir` once its cluster is written and there is room in the parent. -/
theorem plantDir_good {P : Driver → Prop} {rounds parent nc : Nat} {raw : List UInt8}
    (written : Triple P (writeDirCluster nc parent) fun _ d => Idle d ∧ d.HasDirRoom parent) :
    Triple P (plantDir rounds parent raw nc) fun _ => Good := by
  have giveBack : Triple Good (do
      let _ ← fatSetEntry nc 0
      pure (-1 : Int)) fun _ => Good :=
    Triple.bind (fatSetEntry_idle nc 0) fun _ => Triple.pure fun _ => Idle.good
  refine Triple.bind written fun ok => Triple.ite (fun _ => ?_) fun _ => ?_
  · exact giveBack.strengthen fun d pre => pre.1.good
  refine Triple.bind ((findEmptyDirentAt_room rounds parent).strengthen
    fun d pre => ⟨pre.1.good, pre.2⟩) fun slot => ?_
  cases slot with
  | none => exact giveBack.strengthen fun d pre => pre.1
  | some slot =>
      refine Triple.strengthen (P := Idle) ?_ fun d pre => pre.2 (by simp)
      refine Triple.bind (loadWbuf_holding slot.lba) fun ok => ?_
      cases ok with
      | false => exact giveBack.strengthen fun d post => post.1.good
      | true =>
          refine Triple.strengthen ?_ fun d post => post.2 rfl
          exact Triple.bind (updateSec_idle _ _) fun ok => Triple.pure fun _ => Idle.good

theorem writeDirCluster_idle (clus parent : Nat) :
    Triple Idle (writeDirCluster clus parent) fun _ => Idle := by
  refine Triple.bind (mount_keeps _) fun m' => Triple.bind (editWbuf_idle _) fun _ => ?_
  refine Triple.bind (writeWbuf_idle _) fun ok => ?_
  refine Triple.ite (fun _ => Triple.pure fun _ => id) fun _ => ?_
  refine Triple.bind (editWbuf_idle _) fun _ => ?_
  refine Triple.bind (Triple.firstOf_keeps _ fun lba _ => ?_) fun _ => Triple.pure fun _ => id
  exact Triple.bind (writeWbuf_idle lba) fun _ => Triple.pure fun _ => id

/-- A directory that is a chain has a cluster in use, in which or behind which there is
room. -/
structure Driver.RoomyDir (d : Driver) (c : Nat) : Prop where
  sane : d.m.Sane d.blk.capacity
  isCluster : d.m.IsCluster c
  used : d.m.link d.disk c ≠ 0
  room : d.HasRoom c

theorem roomyDir_congr {d d' : Driver} {c : Nat} (roomy : d.RoomyDir c)
    (blk : d'.blk = d.blk) (m : d'.m = d.m) : d'.RoomyDir c where
  sane := by rw [blk, m]; exact roomy.sane
  isCluster := by rw [m]; exact roomy.isCluster
  used := by rw [Driver.disk, blk, m]; exact roomy.used
  room := hasRoom_congr roomy.room blk m

/-- `fat_mkdir` meets no link when it searches its parent for a free entry. -/
def MkdirClear (rounds : Nat) (path : List UInt8) (d : Driver) : Prop :=
  ∀ parent d', resolveParent rounds path d.invalidated = some (.ok parent, d') →
    parent ≠ 0 ∨ d.m.type = .fat32 →
    d.RoomyDir (if parent ≠ 0 then parent else d.m.rootClus)

theorem hasRoom_of_other_cluster {d d' : Driver} {c nc : Nat} (roomy : d.RoomyDir c)
    (isCluster : d.m.IsCluster nc) (other : c ≠ nc) (step : DiskStep d d')
    (link : d.m.link d'.disk c = d.m.link d.disk c)
    (outside : ∀ lba, d.m.Outside lba → lba ∉ d.m.clusterLbas nc → d'.disk lba = d.disk lba) :
    d'.HasRoom c := by
  rcases roomy.room with ⟨lba, mem, isFree⟩ | ends
  · left
    refine ⟨lba, by rwa [step.m], ?_⟩
    obtain ⟨s, inCluster, rfl⟩ := (mem_clusterLbas roomy.sane roomy.isCluster).mp mem
    rwa [outside _ (dataLba_outside roomy.sane)]
    intro shared
    obtain ⟨s', inCluster', same⟩ := (mem_clusterLbas roomy.sane isCluster).mp shared
    exact other (dataLba_inj isCluster roomy.isCluster inCluster' inCluster same).1.symm
  · right
    refine ⟨step.free.1.sane, by rw [step.m]; exact ends.2.1, ?_⟩
    have mark := next_eq_noClus.mp ends.2.2
    rw [step.m]
    exact next_of_mark (by rwa [link])

theorem writeDirCluster_room {d d' : Driver} {parent nc : Nat}
    (roomy : d.RoomyDir (if parent ≠ 0 then parent else d.m.rootClus))
    (alloc : Allocated d d' nc) :
    Triple (· = d') (writeDirCluster nc parent) fun _ s => Idle s ∧ s.HasDirRoom parent := by
  rintro d₁ rfl ok d₂ run
  have m' : d₁.m = d.m := alloc.step.m
  have isCluster : d₁.m.IsCluster nc := by
    rw [m']
    exact alloc.isCluster
  obtain ⟨d₃, run₂, step₂, disk₂⟩ := writeDirCluster_run alloc.step.free isCluster parent
  obtain ⟨-, rfl⟩ := Prod.mk.inj (Option.some.inj (run.symm.trans run₂))
  have steps := alloc.step.trans step₂
  rw [m', clusterLbas_eq_cons roomy.sane alloc.isCluster, List.tail_cons] at disk₂
  have rest : ∀ lba, lba ∉ d.m.clusterLbas nc → d₂.disk lba = d₁.disk lba := by
    intro lba other
    rw [clusterLbas_eq_cons roomy.sane alloc.isCluster, List.mem_cons, not_or] at other
    rw [disk₂]
    exact (if_neg other.2).trans (if_neg other.1)
  have used : (if parent ≠ 0 then parent else d.m.rootClus) ≠ nc :=
    alloc.ne_of_used roomy.used
  refine ⟨step₂.free.idle, fun _ => ?_⟩
  rw [steps.m]
  refine hasRoom_of_other_cluster roomy alloc.isCluster used steps ?_ ?_
  · rw [link_congr (fun lba inTable => rest lba
      (not_outside_ne_data roomy.sane alloc.isCluster inTable)) roomy.sane.fats]
    exact alloc.link_of_ne roomy.sane used
  · intro lba outside other
    rw [rest lba other, alloc.write.outside lba outside]

theorem fatMkdir_good {rounds : Nat} {path : List UInt8} :
    Triple (fun d => Good d ∧ MkdirClear rounds path d) (fatMkdir rounds path)
      fun _ => Good := by
  rintro d ⟨good, clear⟩ result d' run
  rw [fatMkdir, Prog.bind_eq_of_run (mount_run d)] at run
  split at run
  · obtain ⟨-, rfl⟩ := Prod.mk.inj (Option.some.inj run)
    exact good
  rw [Prog.bind_eq_of_run (invalidate_run d)] at run
  obtain ⟨parent, d₁, resolved, run⟩ := Prog.bind_eq_some run
  have good₁ := resolveParent_keeps (readFatSec_goodAt d.blk d.m) rounds path _
    ⟨good.invalidated.good, rfl, rfl⟩ _ _ resolved
  cases parent with
  | error code =>
      obtain ⟨-, rfl⟩ := Prod.mk.inj (Option.some.inj run)
      exact good₁.1
  | ok parent =>
      obtain ⟨found, d₂, lookup, run⟩ := Prog.bind_eq_some run
      obtain ⟨good₂, blk₂, m₂⟩ := findDirentAt_keeps (readFatSec_goodAt d.blk d.m) rounds
        parent _ d₁ good₁ _ _ lookup
      cases found with
      | some slot =>
          obtain ⟨-, rfl⟩ := Prod.mk.inj (Option.some.inj run)
          exact good₂
      | none =>
          replace run : (do
              let nc ← fatAllocCluster
              if nc = 0 then pure (-1)
              else plantDir rounds parent (buildRawName (leafOf path)) nc) d₂ =
            some (result, d') := run
          by_cases isChain : parent ≠ 0 ∨ d.m.type = .fat32
          · have roomy : d₂.RoomyDir (if parent ≠ 0 then parent else d₂.m.rootClus) := by
              have roomy := clear parent d₁ resolved isChain
              rw [← m₂] at roomy
              exact roomyDir_congr roomy blk₂ m₂
            rcases fatAllocCluster_run ⟨good₂, roomy.sane⟩ with
              ⟨nc, d₃, run₃, alloc⟩ | ⟨-, d₃, run₃, step₃⟩
            · have nonzero : nc ≠ 0 := by
                have atLeast := alloc.isCluster.1
                omega
              rw [Prog.bind_eq_of_run run₃, if_neg nonzero] at run
              exact plantDir_good (writeDirCluster_room roomy alloc) d₃ rfl result d' run
            · rw [Prog.bind_eq_of_run run₃, if_pos rfl] at run
              obtain ⟨-, rfl⟩ := Prod.mk.inj (Option.some.inj run)
              exact step₃.good
          · obtain ⟨nc, d₃, run₃, run⟩ := Prog.bind_eq_some run
            have alloc := fatAllocCluster_good d₂ good₂ nc d₃ run₃
            have m₃ : d₃.m = d.m := fatAllocCluster_mount d.m d₂ m₂ nc d₃ run₃
            split at run
            · obtain ⟨-, rfl⟩ := Prod.mk.inj (Option.some.inj run)
              exact alloc.1
            · rename_i nonzero
              have written : Triple (fun s => Idle s ∧ MountIs d.m s)
                  (writeDirCluster nc parent) fun _ s => Idle s ∧ s.HasDirRoom parent := by
                rintro s ⟨idle, known⟩ ok s' run
                refine ⟨writeDirCluster_idle nc parent s idle ok s' run, fun inChain => ?_⟩
                have known' : s'.m = d.m := writeDirCluster_mount d.m nc parent s known ok s' run
                rw [known'] at inChain
                exact absurd inChain isChain
              exact plantDir_good written d₃ ⟨alloc.2 nonzero, m₃⟩ result d' run

end PathOperations

end Ncd15.Fat
