import Ncd15.Fat.SharedBuffer

/-!
# Entries of the root directory

Where the lookups and the search for a free slot stand in the root directory, and
what the edits of an entry do to its name, first cluster and size.  A lookup that
has not read the table is still in the first cluster of the root.
-/

namespace Ncd15.Fat

open Ncd15.Library

section Place

/-- A sector of the fixed root directory, or of the first cluster of a FAT32 root. -/
def Mount.RootSector (m : Mount) (lba : Nat) : Prop :=
  if m.type = .fat32 then lba ∈ m.clusterLbas m.rootClus
  else m.firstRootSec ≤ lba ∧ lba < m.firstDataSec

/-- The cluster the iterator has in the first part of the root directory. -/
def Mount.rootDirClus (m : Mount) : Nat := if m.type = .fat32 then m.rootClus else 0

variable {m : Mount} {capacity lba : Nat}

theorem Mount.Sane.rootIsCluster (sane : m.Sane capacity) (fat32 : m.type = .fat32) :
    m.IsCluster m.rootClus := (sane.rootClus fat32).2

theorem rootSector_outside (sane : m.Sane capacity) (root : m.RootSector lba) :
    m.Outside lba := by
  unfold Mount.RootSector at root
  split at root
  · rename_i fat32
    obtain ⟨s, -, rfl⟩ := (mem_clusterLbas sane (sane.rootIsCluster fat32)).mp root
    exact dataLba_outside sane
  · exact .inr (sane.rootStart ▸ root.1)

theorem rootSector_lt (sane : m.Sane capacity) (root : m.RootSector lba) : lba < capacity := by
  unfold Mount.RootSector at root
  split at root
  · rename_i fat32
    obtain ⟨s, inside, rfl⟩ := (mem_clusterLbas sane (sane.rootIsCluster fat32)).mp root
    exact dataLba_lt sane (sane.rootIsCluster fat32) inside
  · exact root.2.trans_le ((Nat.le_add_right _ _).trans sane.dataFits)

end Place

section Search

/-- The iterator stands in the first part of the root directory. -/
structure DirIter.InRoot (m : Mount) (it : DirIter) : Prop where
  clus : it.curClus = m.rootDirClus
  sector : m.RootSector it.curLba

/-- Between two rounds of a lookup in the root directory of a volume. -/
structure Searching (b : BlkDev) (m : Mount) (it : DirIter) (d : Driver) : Prop where
  here : GoodAt b m d
  idx : it.entIdx ≤ 16
  cached : it.bufLbaValid = true → it.buf = b.sec it.bufLba
  place : d.fatBufValid = false → it.InRoot m

/-- An entry that a lookup may return. -/
structure Live (s : Sector) (off : Nat) : Prop where
  started : s.get off ≠ 0x00
  kept : s.get off ≠ 0xE5
  isEntry : hasAttr (s.get (off + 11)) attrVolid = false

/-- An entry that a lookup has returned, with the iterator behind it. -/
structure FoundAt (b : BlkDev) (found : Found) (it : DirIter) : Prop where
  entry : found.de = Dirent.ofSector (b.sec it.slot.lba) it.slot.off
  off_le : it.slot.off ≤ 480
  live : Live (b.sec it.slot.lba) it.slot.off

variable {b : BlkDev} {m : Mount}

theorem readFatSec_then_valid {lba : Nat} {next : DriverM Nat} {Q : Nat → Driver → Prop}
    (failed : ∀ d, Q noClus d) (rest : Triple (fun d => d.fatBufValid = true) next Q) :
    Triple (fun _ => True) (do if !(← readFatSec lba) then pure noClus else next) Q := by
  intro d _ nxt d' run
  obtain ⟨ok, d₁, read, run⟩ := Prog.bind_eq_some run
  cases ok with
  | false =>
      obtain ⟨rfl, rfl⟩ := Prod.mk.inj (Option.some.inj run)
      exact failed _
  | true =>
      refine rest d₁ ?_ nxt d' run
      unfold readFatSec at read
      split at read
      · rename_i hit
        obtain ⟨-, rfl⟩ := Prod.mk.inj (Option.some.inj read)
        exact hit.1
      split at read
      · obtain ⟨-, rfl⟩ := Prod.mk.inj (Option.some.inj read)
        rfl
      · obtain ⟨absurd, -⟩ := Prod.mk.inj (Option.some.inj read)
        exact Bool.noConfusion absurd

/-- A link that has been read leaves a table sector in the shared buffer. -/
theorem fatNextClus_valid (c : Nat) :
    Triple (fun _ => True) (fatNextClus c) fun nxt d => nxt = noClus ∨ d.fatBufValid = true := by
  have final (f : Sector → Nat) : Triple (fun d => d.fatBufValid = true)
      (do pure (f (← wbuf))) fun nxt d => nxt = noClus ∨ d.fatBufValid = true :=
    Triple.bind (wbuf_keeps _) fun _ => Triple.pure fun _ => .inr
  have any {lba : Nat} {next : DriverM Nat}
      (rest : Triple (fun d => d.fatBufValid = true) next
        fun nxt d => nxt = noClus ∨ d.fatBufValid = true) :
      Triple (fun _ => True) (do if !(← readFatSec lba) then pure noClus else next)
        fun nxt d => nxt = noClus ∨ d.fatBufValid = true :=
    readFatSec_then_valid (fun _ => .inl rfl) rest
  refine Triple.bind (mount_keeps _) fun m => ?_
  cases m.type with
  | fat16 => exact any (final _)
  | fat32 => exact any (final _)
  | none | fat12 =>
      refine any (Triple.ite (fun _ => ?_) fun _ => final _)
      refine (any ((any ?_).strengthen fun _ _ => trivial)).strengthen fun _ _ => trivial
      exact Triple.bind (wbuf_keeps _) fun _ =>
        (any (final _)).strengthen fun _ _ => trivial

/-- What a round of a lookup leaves. -/
def Outcome (b : BlkDev) (m : Mount) : DirIter ⊕ (DirResult × DirIter) → Driver → Prop :=
  Sum.elim (Searching b m) fun result d =>
    Searching b m result.2 d ∧ ∀ found, result.1 = .ok found → FoundAt b found result.2

variable {it : DirIter}

theorem Searching.failed {d : Driver} (searching : Searching b m it d) (code : Int) :
    Outcome b m (.inr (.error code, it)) d := ⟨searching, nofun⟩

theorem Searching.moved {d : Driver} (searching : Searching b m it d) {clus lba : Nat}
    (place : d.fatBufValid = false → (it.atSector clus lba).InRoot m) :
    Searching b m (it.atSector clus lba) d where
  here := searching.here
  idx := Nat.zero_le _
  cached := nofun
  place := place

theorem dirLoadSector_searching (it : DirIter) :
    Triple (Searching b m it) (dirLoadSector it) fun loaded d => Searching b m it d ∧
      ∀ it', loaded = some it' → Searching b m it' d ∧ it'.bufLbaValid = true ∧
        it'.bufLba = it'.curLba ∧ it'.entIdx = it.entIdx := by
  intro d searching loaded d' run
  unfold dirLoadSector at run
  split at run
  · rename_i hit
    obtain ⟨rfl, rfl⟩ := Prod.mk.inj (Option.some.inj run)
    refine ⟨searching, ?_⟩
    rintro it' ⟨⟩
    exact ⟨searching, hit.1, hit.2, rfl⟩
  split at run
  · obtain ⟨rfl, rfl⟩ := Prod.mk.inj (Option.some.inj run)
    refine ⟨searching, ?_⟩
    rintro it' ⟨⟩
    have cached : d.disk it.curLba = b.sec it.curLba := by rw [Driver.disk, searching.here.2.1]
    have place (free : d.fatBufValid = false) := searching.place free
    exact ⟨⟨searching.here, searching.idx, fun _ => cached,
      fun free => ⟨(place free).clus, (place free).sector⟩⟩, rfl, rfl, rfl⟩
  · obtain ⟨rfl, rfl⟩ := Prod.mk.inj (Option.some.inj run)
    refine ⟨searching, ?_⟩
    rintro it' ⟨⟩

theorem u32_back {first x : Nat} (after : first ≤ x) (small : x < 2 ^ 32 - 1) :
    u32 (u32 (x + 2 ^ 32 - first) + 1) = x - first + 1 := by
  unfold u32
  omega

theorem readFatSec_valid : KeptByReads fun d => d.fatBufValid = true := by
  intro lba d valid ok d' run
  unfold readFatSec at run
  split at run
  · obtain ⟨-, rfl⟩ := Prod.mk.inj (Option.some.inj run)
    exact valid
  split at run
  · obtain ⟨-, rfl⟩ := Prod.mk.inj (Option.some.inj run)
    rfl
  · obtain ⟨-, rfl⟩ := Prod.mk.inj (Option.some.inj run)
    exact valid

theorem fatNextClus_searching (c : Nat) :
    Triple (Searching b m it) (fatNextClus c) fun nxt d =>
      Searching b m it d ∧ (nxt ≠ noClus → d.fatBufValid = true) := by
  intro d searching nxt d' run
  have here := fatNextClus_keeps (readFatSec_goodAt b m) c d searching.here nxt d' run
  refine ⟨⟨here, searching.idx, searching.cached, fun free => searching.place ?_⟩, fun next => ?_⟩
  · by_contra valid
    rw [Bool.not_eq_false] at valid
    have kept : d'.fatBufValid = true :=
      fatNextClus_keeps readFatSec_valid c d valid nxt d' run
    rw [free] at kept
    exact Bool.noConfusion kept
  · exact (fatNextClus_valid c d trivial nxt d' run).resolve_left next

theorem DirIter.InRoot.nextFixed {capacity : Nat} (sane : m.Sane capacity) (root : it.InRoot m)
    (fixed : it.curClus = 0)
    (more : ¬ m.rootEntCount * 32 / 512 ≤ u32 (u32 (it.curLba + 2 ^ 32 - m.firstRootSec) + 1)) :
    (it.atSector 0 (u32 (it.curLba + 1))).InRoot m := by
  have narrow : m.type ≠ .fat32 := by
    intro fat32
    have start := root.clus
    rw [fixed, Mount.rootDirClus, if_pos fat32] at start
    have atLeast := (sane.rootIsCluster fat32).1
    omega
  have inside := root.sector
  have below := rootSector_lt sane root.sector
  have bound := sane.capacity_lt
  have data := sane.dataStart
  rw [Mount.RootSector, if_neg narrow] at inside
  rw [u32_back inside.1 (by omega)] at more
  refine ⟨by rw [Mount.rootDirClus, if_neg narrow]; rfl, ?_⟩
  rw [Mount.RootSector, if_neg narrow, DirIter.atSector, u32_of_lt (by omega)]
  dsimp only
  omega

theorem DirIter.InRoot.nextInCluster {capacity : Nat} (sane : m.Sane capacity)
    (root : it.InRoot m) (chain : it.curClus ≠ 0)
    (more : u32 (u32 (it.curLba + 2 ^ 32 - m.clusToLba it.curClus) + 1) < m.secPerClus) :
    (it.atSector it.curClus (u32 (it.curLba + 1))).InRoot m := by
  have fat32 : m.type = .fat32 := by
    by_contra narrow
    rw [root.clus, Mount.rootDirClus, if_neg narrow] at chain
    exact chain rfl
  have start := root.clus
  rw [Mount.rootDirClus, if_pos fat32] at start
  have isCluster := sane.rootIsCluster fat32
  have inside := root.sector
  have below := rootSector_lt sane root.sector
  have bound := sane.capacity_lt
  rw [Mount.RootSector, if_pos fat32] at inside
  obtain ⟨s, small, lba⟩ := (mem_clusterLbas sane isCluster).mp inside
  have first : it.curLba = m.dataLba m.rootClus 0 + s := lba.symm
  have next : m.dataLba m.rootClus (s + 1) = it.curLba + 1 := by
    rw [← lba]
    rfl
  rw [start, clusToLba_eq sane isCluster, u32_back (by omega) (by omega)] at more
  refine ⟨root.clus, ?_⟩
  rw [Mount.RootSector, if_pos fat32, DirIter.atSector, u32_of_lt (by omega)]
  exact (mem_clusterLbas sane isCluster).mpr ⟨s + 1, by omega, next⟩

theorem dirAdvance_searching {capacity : Nat} (sane : m.Sane capacity) (it : DirIter) :
    Triple (Searching b m it) (dirAdvance it) (Outcome b m) := by
  intro d searching result d' run
  have same : d.m = m := searching.here.2.2
  rw [dirAdvance, Prog.bind_eq_of_run (mount_run d), same] at run
  split at run
  · rename_i fixed
    split at run
    · obtain ⟨rfl, rfl⟩ := Prod.mk.inj (Option.some.inj run)
      exact searching.failed 1
    · rename_i more
      obtain ⟨rfl, rfl⟩ := Prod.mk.inj (Option.some.inj run)
      exact searching.moved fun free => (searching.place free).nextFixed sane fixed more
  split at run
  · rename_i chain more
    obtain ⟨rfl, rfl⟩ := Prod.mk.inj (Option.some.inj run)
    exact searching.moved fun free => (searching.place free).nextInCluster sane chain more
  · refine Triple.bind (fatNextClus_searching it.curClus) (fun nxt => ?_) d searching result d' run
    refine Triple.ite (fun _ => Triple.pure fun d post => post.1.failed 1) fun next => ?_
    refine Triple.pure fun d post => post.1.moved fun free => ?_
    exact absurd (post.2 next) (by simp [free])

theorem entry_searching {d : Driver} (searching : Searching b m it d)
    (loaded : it.bufLbaValid = true) (here : it.bufLba = it.curLba) (more : it.entIdx < 16) :
    Outcome b m it.entry d := by
  have passed (lfn : LfnBuf) : Searching b m { it with entIdx := it.entIdx + 1, lfn } d :=
    ⟨searching.here, more, searching.cached, fun free =>
      ⟨(searching.place free).clus, (searching.place free).sector⟩⟩
  have buf : it.buf = b.sec it.curLba := by rw [searching.cached loaded, here]
  unfold DirIter.entry
  dsimp only
  split
  · exact searching.failed 1
  split
  · exact passed _
  split
  · exact passed _
  split
  · exact passed _
  · rename_i started kept short isEntry
    refine ⟨passed _, ?_⟩
    rintro found ⟨⟩
    have off : (it.entIdx + 1 - 1) * 32 = it.entIdx * 32 := rfl
    refine ⟨?_, ?_, ?_⟩
    · rw [buf]
      rfl
    · change it.entIdx * 32 ≤ 480
      omega
    · rw [buf] at started kept isEntry
      exact ⟨started, kept, (Bool.not_eq_true _).mp isEntry⟩

theorem dirRound_searching {capacity : Nat} (sane : m.Sane capacity) (it : DirIter) :
    Triple (Searching b m it) (dirRound it) (Outcome b m) := by
  refine Triple.ite (fun _ => Triple.pure fun d searching => searching.failed _) fun _ => ?_
  refine Triple.bind (dirLoadSector_searching it) fun loaded => ?_
  cases loaded with
  | none => exact Triple.pure fun d post => post.1.failed _
  | some it' =>
      refine Triple.strengthen ?_ fun d post => post.2 it' rfl
      refine Triple.ite (fun _ => ?_) fun more => ?_
      · exact (dirAdvance_searching sane it').strengthen fun d post => post.1
      · exact Triple.pure fun d post => entry_searching post.1 post.2.1 post.2.2.1 (by omega)

theorem fatDirnext_searching {capacity : Nat} (sane : m.Sane capacity) (rounds : Nat)
    (it : DirIter) :
    Triple (Searching b m it) (fatDirnext rounds it) fun result d =>
      Searching b m result.2 d ∧ ∀ found, result.1 = .ok found → FoundAt b found result.2 := by
  refine Triple.bind (mount_keeps _) fun m' => ?_
  refine Triple.ite (fun _ => Triple.pure fun d searching => searching.failed (-1)) fun _ => ?_
  refine (Triple.loop (dirRound_searching sane) rounds { it with lfn := LfnBuf.clear }).strengthen
    fun d searching => ⟨searching.here, searching.idx, searching.cached, fun free =>
      ⟨(searching.place free).clus, (searching.place free).sector⟩⟩

theorem searchDir_searching {capacity : Nat} (sane : m.Sane capacity) (rounds : Nat)
    (accept : Found → Bool) (it : DirIter) :
    Triple (Searching b m it) (searchDir rounds accept it) fun result d =>
      Searching b m result.2 d ∧ ∀ found, result.1 = some found →
        FoundAt b found result.2 ∧ accept found = true := by
  refine Triple.loop (I := fun it => Searching b m it) (fun it => ?_) rounds it
  refine Triple.bind (fatDirnext_searching sane rounds it) fun result => ?_
  obtain ⟨result, it'⟩ := result
  cases result with
  | error code => exact Triple.pure fun d post => ⟨post.1, nofun⟩
  | ok found =>
      refine Triple.pure fun d post => ?_
      split
      · rename_i accepted
        refine ⟨post.1, ?_⟩
        rintro found' ⟨⟩
        exact ⟨post.2 found rfl, accepted⟩
      · exact post.1

end Search

section Slots

variable {b : BlkDev} {m : Mount} {capacity : Nat}

theorem searching_diropenRoot {d : Driver} (sane : m.Sane capacity) (here : GoodAt b m d) :
    Searching b m m.diropenRoot d := by
  refine ⟨here, ?_, ?_, fun _ => ⟨?_, ?_⟩⟩ <;> unfold Mount.diropenRoot
  · split <;> exact Nat.zero_le _
  · split <;> exact nofun
  · unfold Mount.rootDirClus
    split <;> rfl
  · unfold Mount.RootSector
    split
    · rename_i fat32
      have isCluster := sane.rootIsCluster fat32
      refine (mem_clusterLbas sane isCluster).mpr ⟨0, sane.sectors, ?_⟩
      exact (clusToLba_eq sane isCluster).symm
    · rename_i narrow
      have some := sane.fixedRoot narrow
      have whole := sane.rootWhole
      have data := sane.dataStart
      exact ⟨le_rfl, by dsimp only; omega⟩

/-- The slot of a live entry of this name. -/
structure NamedSlot (b : BlkDev) (raw : List UInt8) (slot : Slot) : Prop where
  off_le : slot.off ≤ 480
  live : Live (b.sec slot.lba) slot.off
  name : (b.sec slot.lba).slice slot.off 11 = raw

theorem fatFindDirent_named (sane : m.Sane capacity) (rounds : Nat) (raw : List UInt8) :
    Triple (GoodAt b m) (fatFindDirent rounds raw) fun slot d => GoodAt b m d ∧
      ∀ found, slot = some found → NamedSlot b raw found ∧
        (d.fatBufValid = false → m.RootSector found.lba) := by
  intro d here slot d' run
  rw [fatFindDirent, Prog.bind_eq_of_run (mount_run d), here.2.2] at run
  obtain ⟨result, d₁, search, run⟩ := Prog.bind_eq_some run
  obtain ⟨rfl, rfl⟩ := Prod.mk.inj (Option.some.inj run)
  obtain ⟨searching, found⟩ := searchDir_searching sane rounds _ _ d
    (searching_diropenRoot sane here) result d₁ search
  refine ⟨searching.here, fun slot isSome => ?_⟩
  obtain ⟨entry, accepted, rfl⟩ := Option.map_eq_some_iff.mp isSome
  obtain ⟨atSlot, accept⟩ := found entry accepted
  simp only [Bool.and_eq_true, decide_eq_true_eq] at accept
  refine ⟨⟨atSlot.off_le, atSlot.live, ?_⟩, fun free => (searching.place free).sector⟩
  rw [← accept.2, atSlot.entry]
  rfl

/-- A slot that no later allocation overwrites. -/
structure SlotKept (m : Mount) (disk : Nat → Sector) (capacity : Nat) (slot : Slot) : Prop where
  off_le : slot.off ≤ 480
  outside : m.Outside slot.lba
  inside : slot.lba < capacity
  used : ∀ c, m.IsCluster c → m.link disk c = 0 → slot.lba ∉ m.clusterLbas c

theorem slotKept_of_cluster {disk : Nat → Sector} {slot : Slot} {c : Nat}
    (sane : m.Sane capacity) (off_le : slot.off ≤ 480) (isCluster : m.IsCluster c)
    (used : m.link disk c ≠ 0) (mem : slot.lba ∈ m.clusterLbas c) :
    SlotKept m disk capacity slot := by
  obtain ⟨s, small, lba⟩ := (mem_clusterLbas sane isCluster).mp mem
  refine ⟨off_le, lba ▸ dataLba_outside sane, lba ▸ dataLba_lt sane isCluster small, ?_⟩
  intro c' isCluster' isFree mem'
  obtain ⟨s', small', lba'⟩ := (mem_clusterLbas sane isCluster').mp mem'
  have same := dataLba_inj isCluster isCluster' small small' (lba.trans lba'.symm)
  exact used (same.1 ▸ isFree)

theorem slotKept_of_root {disk : Nat → Sector} {slot : Slot} (sane : m.Sane capacity)
    (off_le : slot.off ≤ 480) (root : m.RootSector slot.lba)
    (used : m.type = .fat32 → m.link disk m.rootClus ≠ 0) : SlotKept m disk capacity slot := by
  by_cases fat32 : m.type = .fat32
  · rw [Mount.RootSector, if_pos fat32] at root
    exact slotKept_of_cluster sane off_le (sane.rootIsCluster fat32) (used fat32) root
  · refine ⟨off_le, rootSector_outside sane root, rootSector_lt sane root, ?_⟩
    rw [Mount.RootSector, if_neg fat32] at root
    intro c isCluster _ mem
    obtain ⟨s, -, lba⟩ := (mem_clusterLbas sane isCluster).mp mem
    rw [Mount.dataLba] at lba
    omega

theorem freeOffset_le {s : Sector} {off : Nat} (free : freeOffset s = some off) : off ≤ 480 := by
  obtain ⟨e, searched, rfl⟩ := Option.map_eq_some_iff.mp free
  have small := List.mem_range.mp (List.mem_of_find?_eq_some searched)
  omega

theorem scanResult_ok {lbas : List Nat} {slot : Slot}
    (found : b.scanResult lbas = some (.ok slot)) : slot.lba ∈ lbas ∧ slot.off ≤ 480 := by
  induction lbas with
  | nil => simp [BlkDev.scanResult] at found
  | cons lba rest ih =>
      rw [BlkDev.scanResult] at found
      split at found
      · cases free : freeOffset (b.sec lba) with
        | some off =>
            rw [free] at found
            simp only [Option.some.injEq, Except.ok.injEq] at found
            subst found
            exact ⟨List.mem_cons_self, freeOffset_le free⟩
        | none =>
            rw [free] at found
            exact ⟨List.mem_cons_of_mem lba (ih found).1, (ih found).2⟩
      · simp at found

/-- The search for a free slot has found one, and nothing but an extension of the
root has been written. -/
structure SlotFound (m : Mount) (capacity : Nat) (slot : Slot) (d : Driver) : Prop where
  here : d.m = m
  size : d.blk.capacity = capacity
  free : Free d
  kept : SlotKept m d.disk capacity slot

/-- A cluster of the chain the search goes through. -/
structure OnChain (m : Mount) (capacity : Nat) (c : Nat) (d : Driver) : Prop where
  here : d.m = m
  size : d.blk.capacity = capacity
  idle : Idle d
  isCluster : m.IsCluster c
  used : m.link d.disk c ≠ 0
  room : d.HasRoom c

theorem emptyRound_onChain (sane : m.Sane capacity) (c : Nat) :
    Triple (OnChain m capacity c) (emptyRound m c)
      (Sum.elim (OnChain m capacity) fun slot d =>
        ∀ found, slot = some found → SlotFound m capacity found d) := by
  rintro d ⟨rfl, rfl, idle, isCluster, used, room⟩ result d' run
  cases emptyRound_cases idle room run with
  | failed => exact nofun
  | found slot idle' blk m' scan =>
      rintro found ⟨⟩
      obtain ⟨mem, off_le⟩ := scanResult_ok scan
      have disk : d'.disk = d.disk := congrArg BlkDev.sec blk
      refine ⟨m', congrArg BlkDev.capacity blk, idle'.free (by rwa [m', blk]), ?_⟩
      rw [disk]
      exact slotKept_of_cluster sane off_le isCluster used mem
  | extended nc d₁ blk m₁ ends ext =>
      have sane₁ : d₁.m.Sane d₁.blk.capacity := by rwa [blk, m₁]
      have atEnd := ext.endsAt sane₁
      have m' : d'.m = d.m := ext.step.m.trans m₁
      have same := ext.step.capacity.trans (congrArg BlkDev.capacity blk)
      refine ⟨m', same, ext.step.free.idle, ?_, ?_, .inr atEnd⟩
      · rw [← m₁]
        exact ext.isCluster
      · rw [← m']
        exact atEnd.used

theorem findEmptyInRoot_found (sane : m.Sane capacity) (narrow : m.type ≠ .fat32) :
    Triple (fun d => Idle d ∧ d.m = m ∧ d.blk.capacity = capacity) findEmptyInRoot
      fun slot d => ∀ found, slot = some found → SlotFound m capacity found d := by
  rintro d ⟨idle, rfl, rfl⟩ slot d' run
  rw [findEmptyInRoot, Prog.bind_eq_of_run (mount_run d)] at run
  obtain ⟨s, scan⟩ := scanFree_run d.m.rootLbas d
  rw [Prog.bind_eq_of_run scan] at run
  rintro found rfl
  cases scanned : d.blk.scanResult d.m.rootLbas with
  | none =>
      rw [scanned] at run
      exact absurd (Prod.mk.inj (Option.some.inj run)).1 (by simp)
  | some result =>
      rw [scanned] at run
      cases result with
      | error => exact absurd (Prod.mk.inj (Option.some.inj run)).1 (by simp)
      | ok slot =>
          obtain ⟨isSlot, rfl⟩ := Prod.mk.inj (Option.some.inj run)
          obtain rfl := Option.some.inj isSlot
          obtain ⟨mem, off_le⟩ := scanResult_ok scanned
          refine ⟨rfl, rfl, (idle.edited s).free sane, ?_⟩
          refine slotKept_of_root sane off_le ?_ fun fat32 => absurd fat32 narrow
          obtain ⟨e, small, lba⟩ := List.mem_map.mp mem
          have below := List.mem_range.mp small
          have bound := sane.capacity_lt
          have data := sane.dataStart
          have fits := sane.dataFits
          rw [u32_of_lt (by omega)] at lba
          rw [Mount.RootSector, if_neg narrow]
          omega

theorem fatFindEmptyDirent_found (sane : m.Sane capacity) (rounds : Nat) :
    Triple (fun d => Good d ∧ d.m = m ∧ d.blk.capacity = capacity ∧ (m.type = .fat32 →
        d.HasRoom m.rootClus ∧ m.link d.disk m.rootClus ≠ 0))
      (fatFindEmptyDirent rounds) fun slot d =>
        ∀ found, slot = some found → SlotFound m capacity found d := by
  rintro d ⟨good, rfl, rfl, root⟩ slot d' run
  rw [fatFindEmptyDirent, Prog.bind_eq_of_run (invalidate_run d),
    Prog.bind_eq_of_run (mount_run _)] at run
  split at run
  · rename_i narrow
    exact findEmptyInRoot_found sane narrow _ ⟨good.invalidated, rfl, rfl⟩ slot d' run
  · rename_i wide
    have fat32 : d.m.type = .fat32 := not_not.mp wide
    refine Triple.loop (emptyRound_onChain sane) rounds d.m.rootClus d.invalidated ?_ slot d' run
    exact ⟨rfl, rfl, good.invalidated, sane.rootIsCluster fat32, (root fat32).2,
      hasRoom_congr (root fat32).1 rfl rfl⟩

end Slots

section Edits

variable {s : Sector} {off first size : Nat} {raw : List UInt8}

/-- The name, the first cluster and the size in an entry. -/
structure EntryIs (s : Sector) (off : Nat) (raw : List UInt8) (first size : Nat) : Prop where
  name : s.slice off 11 = raw
  first : firstClusAt s off = first
  size : s.loadLe (off + 28) 4 = size

theorem firstClusAt_editFirstClus (inside : off ≤ 480) {clus : Nat} (small : clus < 2 ^ 32) :
    firstClusAt (editFirstClus off clus s) off = clus := by
  unfold firstClusAt editFirstClus
  rw [Buffer.loadLe_blit_self _ _ _ _ (by omega),
    Buffer.loadLe_blit_of_disjoint _ (by simp only [Buffer.length_leBytes]; omega),
    Buffer.loadLe_blit_self _ _ _ _ (by omega)]
  omega

theorem EntryIs.withFirst (entry : EntryIs s off raw first size) (inside : off ≤ 480) {clus : Nat}
    (small : clus < 2 ^ 32) : EntryIs (editFirstClus off clus s) off raw clus size where
  name := by
    rw [← entry.name, editFirstClus]
    rw [Buffer.slice_blit_of_disjoint _ (by omega), Buffer.slice_blit_of_disjoint _ (by omega)]
  first := firstClusAt_editFirstClus inside small
  size := by
    rw [← entry.size, editFirstClus]
    rw [Buffer.loadLe_blit_of_disjoint _ (by simp only [Buffer.length_leBytes]; omega),
      Buffer.loadLe_blit_of_disjoint _ (by simp only [Buffer.length_leBytes]; omega)]

theorem EntryIs.withSize (entry : EntryIs s off raw first size) (inside : off ≤ 480) {length : Nat}
    (small : length < 2 ^ 32) : EntryIs (editSize off length s) off raw first length where
  name := by
    rw [← entry.name, editSize, Buffer.slice_blit_of_disjoint _ (by omega)]
  first := by
    rw [← entry.first]
    unfold firstClusAt editSize
    rw [Buffer.loadLe_blit_of_disjoint _ (by omega), Buffer.loadLe_blit_of_disjoint _ (by omega)]
  size := by
    rw [editSize, Buffer.loadLe_blit_self _ _ _ _ (by omega)]
    exact Nat.mod_eq_of_lt small

theorem EntryIs.withAttr (entry : EntryIs s off raw first size) (attr : UInt8) :
    EntryIs (s.blit (off + 11) [attr]) off raw first size where
  name := by
    rw [← entry.name, Buffer.slice_blit_of_disjoint _ (by omega)]
  first := by
    rw [← entry.first]
    unfold firstClusAt
    rw [Buffer.loadLe_blit_of_disjoint _ (by simp only [List.length_singleton]; omega),
      Buffer.loadLe_blit_of_disjoint _ (by simp only [List.length_singleton]; omega)]
  size := by
    rw [← entry.size,
      Buffer.loadLe_blit_of_disjoint _ (by simp only [List.length_singleton]; omega)]

theorem editTruncated_entry (inside : off ≤ 480) :
    EntryIs (editTruncated off s) off (s.slice off 11) 0 0 :=
  ((EntryIs.withSize ⟨rfl, rfl, rfl⟩ inside (by decide)).withFirst inside (by decide)).withAttr _

theorem editNew_entry (inside : off ≤ 480) (length : raw.length = 11) (attr : UInt8) :
    EntryIs (editNew off raw attr s) off raw 0 0 := by
  have zero {pos width : Nat} (after : off + 11 ≤ pos) (before : pos + width ≤ off + 32) :
      ((s.blit off (List.replicate 32 0)).blit off raw).loadLe pos width = 0 := by
    rw [Buffer.loadLe_blit_of_disjoint _ (by omega)]
    exact Buffer.loadLe_of_zeros fun i small =>
      Buffer.get_blit_zeros s (by omega) (by omega) (by omega)
  refine EntryIs.withAttr ⟨?_, ?_, ?_⟩ attr
  · have name := Buffer.slice_blit_self (s.blit off (List.replicate 32 0)) off raw (by omega)
    rwa [length] at name
  · rw [firstClusAt, zero (by omega) (by omega), zero (by omega) (by omega), Nat.zero_mul]
  · exact zero (by omega) (by omega)

theorem length_padTo {width : Nat} {chars : List UInt8} (short : chars.length ≤ width) :
    (padTo width chars).length = width := by
  rw [padTo, List.length_append, List.length_replicate]
  omega

theorem length_baseChars (name : List UInt8) : (baseChars name).length ≤ 8 :=
  ((List.takeWhile_sublist _).length_le).trans (List.length_take_le 8 name)

theorem length_extChars (name : List UInt8) : (extChars name).length ≤ 3 := by
  unfold extChars
  split <;> exact List.length_take_le 3 _

/-- A packed name fills the field of an entry. -/
theorem length_buildRawName (name : List UInt8) : (buildRawName name).length = 11 := by
  rw [buildRawName, List.length_append,
    length_padTo (by rw [List.length_map]; exact length_baseChars name),
    length_padTo (by rw [List.length_map]; exact length_extChars name)]

end Edits

section Freeing

variable {d₀ : Driver} {first c : Nat}

/-- The clusters that `fat_free_chain` can reach. -/
def Mount.Reaches (m : Mount) (disk : Nat → Sector) (first c : Nat) : Prop :=
  ∃ n, (m.next disk)^[n] first = c

/-- Between two rounds of `fat_free_chain`: only links of the chain are gone. -/
structure Freeing (d₀ : Driver) (first c : Nat) (d : Driver) : Prop where
  here : d.m = d₀.m
  size : d.blk.capacity = d₀.blk.capacity
  free : Free d
  outside : ∀ lba, d₀.m.Outside lba → d.disk lba = d₀.disk lba
  links : ∀ x, d₀.m.link d.disk x = d₀.m.link d₀.disk x ∨ d₀.m.link d.disk x = 0
  spared : ∀ x, ¬ d₀.m.Reaches d₀.disk first x → d₀.m.link d.disk x = d₀.m.link d₀.disk x
  path : c < 2 ∨ d₀.m.Reaches d₀.disk first c

theorem Freeing.start (free : Free d₀) (first : Nat) : Freeing d₀ first first d₀ where
  here := rfl
  size := rfl
  free := free
  outside := fun _ _ => rfl
  links := fun _ => .inl rfl
  spared := fun _ _ => rfl
  path := .inr ⟨0, rfl⟩

theorem Freeing.next_path {d : Driver} (freeing : Freeing d₀ first c d) (inRange : 2 ≤ c) :
    d₀.m.next d.disk c < 2 ∨ d₀.m.Reaches d₀.disk first (d₀.m.next d.disk c) := by
  rcases freeing.links c with same | gone
  · right
    obtain ⟨n, reached⟩ := freeing.path.resolve_left (Nat.not_lt.mpr inRange)
    refine ⟨n + 1, ?_⟩
    rw [Function.iterate_succ_apply', reached]
    exact congrArg (chainEnd d₀.m.mark) same.symm
  · left
    rw [next_eq_zero.mpr gone]
    decide

theorem Freeing.cleared {d d' : Driver} (freeing : Freeing d₀ first c d)
    (isCluster : d₀.m.IsCluster c) (step : DiskStep d d')
    (write : TableWrite d₀.m c 0 d.disk d'.disk) :
    Freeing d₀ first (d₀.m.next d.disk c) d' := by
  have sane : d₀.m.Sane d.blk.capacity := freeing.here ▸ freeing.free.1.sane
  have zero : d₀.m.link d'.disk c = 0 :=
    write.link_self sane isCluster.2 (mark_pos.trans_le mark_le_bound)
  refine ⟨step.m.trans freeing.here, step.capacity.trans freeing.size, step.free, ?_, ?_, ?_,
    freeing.next_path isCluster.1⟩
  · intro lba outside
    rw [write.outside lba outside, freeing.outside lba outside]
  · intro x
    by_cases self : x = c
    · exact .inr (self ▸ zero)
    · rw [write.link_of_ne sane isCluster.2 self]
      exact freeing.links x
  · intro x apart
    have other : x ≠ c := by
      rintro rfl
      exact apart (freeing.path.resolve_left (Nat.not_lt.mpr isCluster.1))
    rw [write.link_of_ne sane isCluster.2 other]
    exact freeing.spared x apart

/-- The state when `fat_free_chain` is done. -/
def Freed (d₀ : Driver) (first : Nat) (d : Driver) : Prop := ∃ c, Freeing d₀ first c d

theorem freeRound_freeing (c : Nat) :
    Triple (Freeing d₀ first c) (freeRound d₀.m c)
      (Sum.elim (Freeing d₀ first) fun _ => Freed d₀ first) := by
  intro d freeing result d' run
  have ready := freeing.free.1
  have sane := ready.sane
  rw [freeing.here] at sane
  rw [freeRound] at run
  split at run
  · rename_i inRange
    rw [sane.clusEnd_eq] at inRange
    obtain ⟨d₁, run₁, step₁⟩ := fatNextClus_run (c := c) ready.good ready.sane
      (by rw [freeing.here]; exact inRange.2)
    obtain ⟨d₂, run₂, step₂, write⟩ := fatSetEntry_run (c := c) 0 (step₁.ready ready)
      (by rw [step₁.m, freeing.here]; exact inRange.2)
    rw [step₁.m, step₁.disk, freeing.here] at write
    have next := freeing.cleared inRange (DiskStep.of_cache step₁ step₂) write
    rw [freeing.here] at run₁
    rw [Prog.bind_eq_of_run run₁, Prog.bind_eq_of_run run₂, if_neg (by decide)] at run
    split at run
    · obtain ⟨rfl, rfl⟩ := Prod.mk.inj (Option.some.inj run)
      exact ⟨_, next⟩
    · obtain ⟨rfl, rfl⟩ := Prod.mk.inj (Option.some.inj run)
      exact next
  · obtain ⟨rfl, rfl⟩ := Prod.mk.inj (Option.some.inj run)
    exact ⟨c, freeing⟩

theorem freeFile_freed (rounds first : Nat) :
    Triple (fun d => d = d₀ ∧ Free d) (freeFile rounds first) fun _ => Freed d₀ first := by
  rintro d ⟨rfl, free⟩ u d' run
  rw [freeFile] at run
  split at run
  · obtain ⟨ok, d₁, freed, run⟩ := Prog.bind_eq_some run
    obtain ⟨-, rfl⟩ := Prod.mk.inj (Option.some.inj run)
    rw [fatFreeChain, Prog.bind_eq_of_run (mount_run d)] at freed
    exact Triple.loop freeRound_freeing rounds first d (.start free first) ok _ freed
  · obtain ⟨-, rfl⟩ := Prod.mk.inj (Option.some.inj run)
    exact ⟨first, .start free first⟩

end Freeing

section FixedRoot

/-- The iterator is in a fixed root directory, and no table sector has been read. -/
def InFixedRoot (it : DirIter) (d : Driver) : Prop := it.curClus = 0 ∧ d.fatBufValid = false

theorem dirLoadSector_fixed (it : DirIter) :
    Triple (InFixedRoot it) (dirLoadSector it) fun loaded d => InFixedRoot it d ∧
      ∀ it', loaded = some it' → InFixedRoot it' d := by
  intro d fixed loaded d' run
  unfold dirLoadSector at run
  split at run
  · obtain ⟨rfl, rfl⟩ := Prod.mk.inj (Option.some.inj run)
    exact ⟨fixed, by rintro it' ⟨⟩; exact fixed⟩
  split at run
  · obtain ⟨rfl, rfl⟩ := Prod.mk.inj (Option.some.inj run)
    exact ⟨fixed, by rintro it' ⟨⟩; exact fixed⟩
  · obtain ⟨rfl, rfl⟩ := Prod.mk.inj (Option.some.inj run)
    exact ⟨fixed, nofun⟩

theorem dirAdvance_fixed (it : DirIter) :
    Triple (InFixedRoot it) (dirAdvance it)
      (Sum.elim InFixedRoot fun result => InFixedRoot result.2) := by
  refine Triple.bind (mount_keeps _) fun m => Triple.ite (fun _ => ?_) fun chain => ?_
  · refine Triple.ite (fun _ => Triple.pure fun d => id) fun _ => ?_
    exact Triple.pure fun d fixed => ⟨rfl, fixed.2⟩
  · exact Triple.false fun d fixed => chain fixed.1

theorem entry_fixed {it : DirIter} {d : Driver} (fixed : InFixedRoot it d) :
    Sum.elim InFixedRoot (fun result : DirResult × DirIter => InFixedRoot result.2) it.entry d := by
  unfold DirIter.entry
  dsimp only
  repeat' split
  all_goals exact fixed

theorem fatDirnext_fixed (rounds : Nat) (it : DirIter) :
    Triple (InFixedRoot it) (fatDirnext rounds it) fun result => InFixedRoot result.2 := by
  refine Triple.bind (mount_keeps _) fun m => ?_
  refine Triple.ite (fun _ => Triple.pure fun d => id) fun _ => ?_
  change Triple (InFixedRoot { it with lfn := LfnBuf.clear }) _ _
  refine Triple.loop (fun it => ?_) rounds { it with lfn := LfnBuf.clear }
  refine Triple.ite (fun _ => Triple.pure fun d => id) fun _ => ?_
  refine Triple.bind (dirLoadSector_fixed it) fun loaded => ?_
  cases loaded with
  | none => exact Triple.pure fun d post => post.1
  | some it' =>
      refine Triple.strengthen ?_ fun d post => post.2 it' rfl
      exact Triple.ite (fun _ => dirAdvance_fixed it') fun _ => Triple.pure fun d => entry_fixed

/-- A lookup in a fixed root directory never reads the table. -/
theorem findsIdle_of_fixedRoot {d : Driver} (narrow : d.m.type ≠ .fat32)
    (free : d.fatBufValid = false) (rounds : Nat) (raw : List UInt8) :
    FindsIdle (fatFindDirent rounds raw) Option.isSome d := by
  intro found d' run _
  rw [fatFindDirent, Prog.bind_eq_of_run (mount_run d)] at run
  have start : InFixedRoot d.m.diropenRoot d := by
    rw [Mount.diropenRoot, if_neg narrow]
    exact ⟨rfl, free⟩
  have search : Triple (InFixedRoot d.m.diropenRoot) (findRaw rounds d.m.diropenRoot raw)
      fun _ d => d.fatBufValid = false := by
    refine Triple.bind (Q := fun result => InFixedRoot result.2) ?_ fun _ =>
      Triple.pure fun d => And.right
    refine Triple.loop (fun it => ?_) rounds d.m.diropenRoot
    refine Triple.bind (fatDirnext_fixed rounds it) fun result => ?_
    obtain ⟨result, it'⟩ := result
    cases result with
    | error code => exact Triple.pure fun d => id
    | ok found => exact Triple.pure fun d fixed => by split <;> exact fixed
  exact search d start found d' run

/-- On a volume with a fixed root directory `fat_fcreate` meets no link. -/
theorem createClear_of_fixedRoot {d : Driver} (narrow : d.m.type ≠ .fat32) (rounds : Nat)
    (path : List UInt8) : CreateClear rounds path d where
  found := findsIdle_of_fixedRoot (d := d.invalidated) narrow rfl rounds _
  room := fun fat32 => absurd fat32 narrow

end FixedRoot

section Creation

/-- The root directory of a FAT32 volume is a chain of its own: its first cluster is
in use, and no entry there has it in its chain. -/
structure Mount.RootApart (m : Mount) (disk : Nat → Sector) : Prop where
  used : m.type = .fat32 → m.link disk m.rootClus ≠ 0
  apart : m.type = .fat32 → ∀ slot : Slot, m.RootSector slot.lba → slot.off ≤ 480 →
    Live (disk slot.lba) slot.off →
    ¬ m.Reaches disk (firstClusAt (disk slot.lba) slot.off) m.rootClus

/-- The state after a successful `fat_fcreate`. -/
structure Created (m : Mount) (capacity : Nat) (raw : List UInt8) (fp : FatFile) (d : Driver) :
    Prop where
  here : d.m = m
  size : d.blk.capacity = capacity
  free : Free d
  kept : SlotKept m d.disk capacity fp.slot
  entry : EntryIs (d.disk fp.slot.lba) fp.slot.off raw 0 0
  handle : fp = .created fp.slot

theorem modifyEntry_run {d : Driver} (free : Free d) {slot : Slot}
    (inside : slot.lba < d.blk.capacity) (edit : Nat → Sector → Sector) :
    ∃ d', modifyEntry slot edit d = some (true, d') ∧ DiskStep d d' ∧
      d'.disk = Function.update d.disk slot.lba (edit slot.off (d.disk slot.lba)) := by
  have has := has_of_lt free.1.sane inside
  obtain ⟨d', run, step, disk, -⟩ :=
    updateSec_run (free.edited (d.disk slot.lba)) has rfl (edit slot.off)
  exact ⟨d', (loadWbuf_then_run has _ _).trans run, step.of_edited, disk⟩

/-- An edit outside of the table leaves the links. -/
theorem link_of_outside {m : Mount} {capacity : Nat} {disk : Nat → Sector} {slot : Slot}
    (sane : m.Sane capacity) (kept : SlotKept m disk capacity slot) (s : Sector) (c : Nat) :
    m.link (Function.update disk slot.lba s) c = m.link disk c := by
  refine link_congr (fun lba inTable => Function.update_of_ne ?_ _ _) sane.fats
  rintro rfl
  exact inTable kept.outside

theorem SlotKept.edited {m : Mount} {capacity : Nat} {disk : Nat → Sector} {slot : Slot}
    (sane : m.Sane capacity) (kept : SlotKept m disk capacity slot) (s : Sector) :
    SlotKept m (Function.update disk slot.lba s) capacity slot where
  off_le := kept.off_le
  outside := kept.outside
  inside := kept.inside
  used := by
    intro c isCluster isFree
    rw [link_of_outside sane kept] at isFree
    exact kept.used c isCluster isFree

/-- The last step of a creation: the entry of the slot is written. -/
theorem created_of_modify {d d' : Driver} {m : Mount} {capacity : Nat} {slot : Slot} {ok : Bool}
    {raw : List UInt8} {edit : Nat → Sector → Sector} (found : SlotFound m capacity slot d)
    (edited : EntryIs (edit slot.off (d.disk slot.lba)) slot.off raw 0 0)
    (run : modifyEntry slot edit d = some (ok, d')) :
    Created m capacity raw (.created slot) d' := by
  have sane := found.free.1.sane
  rw [found.here, found.size] at sane
  obtain ⟨d₁, run₁, step, disk⟩ := modifyEntry_run found.free
    (by rw [found.size]; exact found.kept.inside) edit
  obtain ⟨-, rfl⟩ := Prod.mk.inj (Option.some.inj (run₁.symm.trans run))
  refine ⟨step.m.trans found.here, step.capacity.trans found.size, step.free, ?_, ?_, rfl⟩
  · rw [disk]
    exact found.kept.edited sane _
  · rw [disk]
    change EntryIs (Function.update d.disk slot.lba _ slot.lba) slot.off raw 0 0
    rwa [Function.update_self]

theorem truncateFile_created {d d' : Driver} {rounds : Nat} {raw : List UInt8} {slot : Slot}
    {ok : Bool} (free : Free d) (apart : d.m.RootApart d.disk) (named : NamedSlot d.blk raw slot)
    (root : d.m.RootSector slot.lba) (run : truncateFile rounds slot d = some (ok, d')) :
    Created d.m d.blk.capacity raw (.created slot) d' := by
  have sane := free.1.sane
  have kept := slotKept_of_root sane named.off_le root apart.used
  have has := has_of_lt sane kept.inside
  have loaded : loadFirstClus slot d = some (some (firstClusAt (d.disk slot.lba) slot.off),
      { d with fatWbuf := d.disk slot.lba }) := loadWbuf_then_run has _ _
  rw [truncateFile, Prog.bind_eq_of_run loaded] at run
  obtain ⟨u, d₁, freed, run⟩ := Prog.bind_eq_some run
  obtain ⟨c, freeing⟩ := freeFile_freed rounds _ _ ⟨rfl, free.edited (d.disk slot.lba)⟩ u d₁ freed
  have same : d₁.disk slot.lba = d.disk slot.lba := freeing.outside _ kept.outside
  refine created_of_modify (d := d₁)
    ⟨freeing.here, freeing.size, freeing.free, ?_⟩ ?_ run
  · refine slotKept_of_root sane named.off_le root fun fat32 => ?_
    have spared := freeing.spared d.m.rootClus (apart.apart fat32 slot root named.off_le named.live)
    exact spared.symm ▸ apart.used fat32
  · rw [same]
    have name : (d.disk slot.lba).slice slot.off 11 = raw := named.name
    rw [← name]
    exact editTruncated_entry named.off_le

theorem fatFcreate_created {d d' : Driver} {rounds : Nat} {path : List UInt8} {fp fp' : FatFile}
    (ready : Ready d) (clear : CreateClear rounds path d) (apart : d.m.RootApart d.disk)
    (run : fatFcreate rounds path fp d = some ((0, fp'), d')) :
    Created d.m d.blk.capacity (buildRawName (stripSlash path)) fp' d' := by
  have sane := ready.sane
  have valid : ¬ (!d.m.valid) = true := by simp [sane.valid]
  rw [fatFcreate, Prog.bind_eq_of_run (mount_run d), if_neg valid,
    Prog.bind_eq_of_run (invalidate_run d)] at run
  obtain ⟨found, d₁, lookup, run⟩ := Prog.bind_eq_some run
  obtain ⟨⟨good₁, blk₁, m₁⟩, named⟩ := fatFindDirent_named sane rounds _ d.invalidated
    ⟨ready.good.invalidated.good, rfl, rfl⟩ found d₁ lookup
  cases found with
  | some slot =>
      obtain ⟨named, root⟩ := named slot rfl
      have idle := clear.found (some slot) d₁ lookup rfl
      have free₁ : Free d₁ := ⟨⟨good₁, by rw [blk₁, m₁]; exact sane⟩, idle⟩
      obtain ⟨ok, d₂, truncated, run⟩ := Prog.bind_eq_some run
      rw [← m₁] at root
      rw [← blk₁] at named
      have apart₁ : d₁.m.RootApart d₁.disk := by
        rw [Driver.disk, blk₁, m₁]
        exact apart
      have created := truncateFile_created free₁ apart₁ named (root idle) truncated
      rw [m₁, blk₁] at created
      split at run
      · exact absurd (Prod.mk.inj (Prod.mk.inj (Option.some.inj run)).1).1 (by decide)
      · obtain ⟨result, rfl⟩ := Prod.mk.inj (Option.some.inj run)
        obtain ⟨-, rfl⟩ := Prod.mk.inj result
        exact created
  | none =>
      obtain ⟨slot, d₂, empty, run⟩ := Prog.bind_eq_some run
      have rooms (fat32 : d.m.type = .fat32) :
          d₁.HasRoom d.m.rootClus ∧ d.m.link d₁.disk d.m.rootClus ≠ 0 := by
        refine ⟨hasRoom_congr (clear.room fat32 d₁ lookup) blk₁ m₁, ?_⟩
        rw [Driver.disk, blk₁]
        exact apart.used fat32
      have slots := fatFindEmptyDirent_found sane rounds d₁
        ⟨good₁, m₁, congrArg BlkDev.capacity blk₁, rooms⟩ slot d₂ empty
      cases slot with
      | none => exact absurd (Prod.mk.inj (Prod.mk.inj (Option.some.inj run)).1).1 (by decide)
      | some slot =>
          have found := slots slot rfl
          obtain ⟨ok, d₃, edited, run⟩ := Prog.bind_eq_some run
          have created := created_of_modify found
            (editNew_entry found.kept.off_le (length_buildRawName _) attrArchive) edited
          split at run
          · exact absurd (Prod.mk.inj (Prod.mk.inj (Option.some.inj run)).1).1 (by decide)
          · obtain ⟨result, rfl⟩ := Prod.mk.inj (Option.some.inj run)
            obtain ⟨-, rfl⟩ := Prod.mk.inj result
            exact created

end Creation

end Ncd15.Fat
