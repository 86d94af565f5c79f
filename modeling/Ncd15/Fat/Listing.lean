import Ncd15.Fat.Contents
import Ncd15.Fat.RootDirectory

/-!
# The listing of a directory

What `fat_dirnext` returns call after call, as a function of the sectors on disk.  A
search through a directory is a search through its listing.
-/

namespace Ncd15.Fat

open Ncd15.Library

section Listing

/-- The slots of a sector. -/
def sectorSlots (lba : Nat) : List Slot := (List.range 16).map fun e => { lba, off := e * 32 }

/-- The slots of a directory with these sectors. -/
def dirSlots (lbas : List Nat) : List Slot := lbas.flatMap sectorSlots

/-- The entries in these slots up to the first one never used, with the part of a long
name that stands before them. -/
def listing (disk : Nat → Sector) : LfnBuf → List Slot → List (Slot × Found)
  | _, [] => []
  | lfn, slot :: rest =>
      let s := disk slot.lba
      let attr := s.get (slot.off + 11)
      if s.get slot.off = 0x00 then []
      else if s.get slot.off = 0xE5 then listing disk LfnBuf.clear rest
      else if attr = attrLfn then listing disk (lfn.collect s slot.off) rest
      else if hasAttr attr attrVolid then listing disk { lfn with len := 0 } rest
      else (slot, { de := Dirent.ofSector s slot.off, lfn := lfn.string }) ::
        listing disk LfnBuf.clear rest

/-- The listing of a directory with these sectors. -/
def dirListing (disk : Nat → Sector) (lbas : List Nat) : List (Slot × Found) :=
  listing disk LfnBuf.clear (dirSlots lbas)

variable {disk disk' : Nat → Sector} {lfn : LfnBuf} {slots : List Slot}

theorem mem_sectorSlots {lba : Nat} {slot : Slot} :
    slot ∈ sectorSlots lba ↔ slot.lba = lba ∧ slot.off % 32 = 0 ∧ slot.off ≤ 480 := by
  simp only [sectorSlots, List.mem_map, List.mem_range]
  constructor
  · rintro ⟨e, small, rfl⟩
    exact ⟨rfl, by dsimp only; omega, by dsimp only; omega⟩
  · rintro ⟨rfl, aligned, small⟩
    refine ⟨slot.off / 32, by omega, ?_⟩
    have off : slot.off / 32 * 32 = slot.off := by omega
    rw [off]

theorem mem_dirSlots {lbas : List Nat} {slot : Slot} :
    slot ∈ dirSlots lbas ↔ slot.lba ∈ lbas ∧ slot.off % 32 = 0 ∧ slot.off ≤ 480 := by
  simp only [dirSlots, List.mem_flatMap, mem_sectorSlots]
  constructor
  · rintro ⟨lba, mem, rfl, place⟩
    exact ⟨mem, place⟩
  · rintro ⟨mem, place⟩
    exact ⟨slot.lba, mem, rfl, place⟩

/-- A listed entry is the one in its slot, and in use. -/
theorem listing_sound {slot : Slot} {found : Found} (mem : (slot, found) ∈ listing disk lfn slots) :
    slot ∈ slots ∧ found.de = Dirent.ofSector (disk slot.lba) slot.off ∧
      (disk slot.lba).get slot.off ≠ 0x00 ∧ (disk slot.lba).get slot.off ≠ 0xE5 ∧
      hasAttr ((disk slot.lba).get (slot.off + 11)) attrVolid = false := by
  induction slots generalizing lfn with
  | nil => simp [listing] at mem
  | cons head rest ih =>
      have later {lfn : LfnBuf} (mem : (slot, found) ∈ listing disk lfn rest) :=
        ih mem |>.imp_left fun inRest => List.mem_cons_of_mem head inRest
      rw [listing] at mem
      split at mem
      · simp at mem
      split at mem
      · exact later mem
      split at mem
      · exact later mem
      split at mem
      · exact later mem
      · rename_i started kept notLfn entry
        rcases List.mem_cons.mp mem with same | mem
        · obtain ⟨rfl, rfl⟩ := Prod.mk.inj same
          exact ⟨List.mem_cons_self, rfl, started, kept, by simpa using entry⟩
        · exact later mem

/-- The 32 bytes of a slot are the same on both disks. -/
def SameSlot (disk disk' : Nat → Sector) (slot : Slot) : Prop :=
  ∀ i, i < 32 → (disk' slot.lba).get (slot.off + i) = (disk slot.lba).get (slot.off + i)

theorem loadLe_of_sameSlot {slot : Slot} (same : SameSlot disk disk' slot) {pos width : Nat}
    (inside : pos + width ≤ 32) :
    (disk' slot.lba).loadLe (slot.off + pos) width =
      (disk slot.lba).loadLe (slot.off + pos) width := by
  refine Buffer.loadLe_shift fun i small => ?_
  rw [Nat.add_assoc]
  exact same _ (by omega)

theorem ofSector_of_sameSlot {slot : Slot} (same : SameSlot disk disk' slot) :
    Dirent.ofSector (disk' slot.lba) slot.off = Dirent.ofSector (disk slot.lba) slot.off := by
  have name : (disk' slot.lba).slice slot.off 11 = (disk slot.lba).slice slot.off 11 := by
    refine Buffer.slice_congr fun i after before => ?_
    obtain ⟨k, rfl⟩ := Nat.exists_eq_add_of_le after
    exact same k (by omega)
  have word {pos width : Nat} (inside : pos + width ≤ 32) := loadLe_of_sameSlot same inside
  unfold Dirent.ofSector
  rw [name, same 11 (by decide), same 12 (by decide), same 13 (by decide),
    word (show 14 + 2 ≤ 32 by decide), word (show 16 + 2 ≤ 32 by decide),
    word (show 18 + 2 ≤ 32 by decide), word (show 20 + 2 ≤ 32 by decide),
    word (show 22 + 2 ≤ 32 by decide), word (show 24 + 2 ≤ 32 by decide),
    word (show 26 + 2 ≤ 32 by decide), word (show 28 + 4 ≤ 32 by decide)]

theorem collect_of_sameSlot {slot : Slot} (same : SameSlot disk disk' slot) (lfn : LfnBuf) :
    lfn.collect (disk' slot.lba) slot.off = lfn.collect (disk slot.lba) slot.off := by
  have chars :
      LfnBuf.narrow (disk' slot.lba) slot.off = LfnBuf.narrow (disk slot.lba) slot.off := by
    unfold LfnBuf.narrow
    have words : (LfnBuf.offsets.map fun pos => (disk' slot.lba).loadLe (slot.off + pos) 2) =
        LfnBuf.offsets.map fun pos => (disk slot.lba).loadLe (slot.off + pos) 2 := by
      refine List.map_congr_left fun pos mem => loadLe_of_sameSlot same ?_
      revert pos
      decide
    rw [words]
  have first := same 0 (by decide)
  rw [Nat.add_zero] at first
  unfold LfnBuf.collect
  rw [chars, first]

/-- The listing depends on the 32 bytes of each slot alone. -/
theorem listing_congr (same : ∀ slot ∈ slots, SameSlot disk disk' slot) :
    listing disk' lfn slots = listing disk lfn slots := by
  induction slots generalizing lfn with
  | nil => rfl
  | cons head rest ih =>
      have here := same head List.mem_cons_self
      have first := here 0 (by decide)
      rw [Nat.add_zero] at first
      have later (lfn : LfnBuf) : listing disk' lfn rest = listing disk lfn rest :=
        ih fun slot mem => same slot (List.mem_cons_of_mem head mem)
      rw [listing, listing, first, here 11 (by decide), ofSector_of_sameSlot here,
        collect_of_sameSlot here]
      simp only [later]

/-- Slots never used add nothing to a listing. -/
theorem listing_append_unused {tail : List Slot}
    (unused : ∀ slot ∈ tail, (disk slot.lba).get slot.off = 0x00) :
    listing disk lfn (slots ++ tail) = listing disk lfn slots := by
  induction slots generalizing lfn with
  | nil =>
      cases tail with
      | nil => rfl
      | cons head rest =>
          rw [List.nil_append, listing, listing]
          exact if_pos (unused head List.mem_cons_self)
  | cons head rest ih =>
      rw [List.cons_append, listing, listing]
      simp only [ih]

/-- A search for what a new entry shows finds it, when no other entry shows it: in the
listing after an edit of one slot that the listing before did not end ahead of. -/
theorem find_listing_edited {slot : Slot} {accept : Found → Bool} {before after : List Slot}
    (outside : slot ∉ before)
    (same : ∀ other ∈ before, SameSlot disk disk' other)
    (used : ∀ other ∈ before, (disk other.lba).get other.off ≠ 0x00)
    (rejected : ∀ entry ∈ listing disk lfn (before ++ slot :: after), entry.1 ≠ slot →
      accept entry.2 = false)
    (started : (disk' slot.lba).get slot.off ≠ 0x00) (kept : (disk' slot.lba).get slot.off ≠ 0xE5)
    (isEntry : hasAttr ((disk' slot.lba).get (slot.off + 11)) attrVolid = false)
    (accepted : ∀ text, accept { de := Dirent.ofSector (disk' slot.lba) slot.off, lfn := text }) :
    ∃ text, (listing disk' lfn (before ++ slot :: after)).find? (accept ·.2) =
      some (slot, { de := Dirent.ofSector (disk' slot.lba) slot.off, lfn := text }) := by
  induction before generalizing lfn with
  | nil =>
      have notLfn : (disk' slot.lba).get (slot.off + 11) ≠ attrLfn := by
        intro isLfn
        rw [isLfn] at isEntry
        exact absurd isEntry (by decide)
      refine ⟨lfn.string, ?_⟩
      rw [List.nil_append, listing, if_neg started, if_neg kept, if_neg notLfn,
        if_neg (by simp [isEntry]), List.find?_cons_of_pos]
      exact accepted _
  | cons head rest ih =>
      have here := same head List.mem_cons_self
      have first := here 0 (by decide)
      rw [Nat.add_zero] at first
      have later {lfn' : LfnBuf} (sub : ∀ entry ∈ listing disk lfn' (rest ++ slot :: after),
          entry ∈ listing disk lfn (head :: (rest ++ slot :: after))) :=
        @ih lfn' (fun mem => outside (List.mem_cons_of_mem head mem))
          (fun other mem => same other (List.mem_cons_of_mem head mem))
          (fun other mem => used other (List.mem_cons_of_mem head mem))
          fun entry mem => rejected entry (sub entry mem)
      have begun := used head List.mem_cons_self
      rw [List.cons_append, listing, first, here 11 (by decide), ofSector_of_sameSlot here,
        collect_of_sameSlot here, if_neg begun]
      rw [List.cons_append] at rejected
      rw [listing] at later rejected
      rw [if_neg begun] at later rejected
      split
      · rename_i deleted
        rw [if_pos deleted] at later
        exact later fun _ => id
      rename_i live
      rw [if_neg live] at later rejected
      split
      · rename_i isLfn
        rw [if_pos isLfn] at later
        exact later fun _ => id
      rename_i notLfn
      rw [if_neg notLfn] at later rejected
      split
      · rename_i label
        rw [if_pos label] at later
        exact later fun _ => id
      rename_i entry
      rw [if_neg entry] at later rejected
      have other : head ≠ slot := by
        rintro rfl
        exact outside List.mem_cons_self
      have refused := rejected _ List.mem_cons_self other
      rw [List.find?_cons_of_neg (by simp [refused])]
      exact later fun _ mem => List.mem_cons_of_mem _ mem

end Listing

section Iterator

/-- Where `fat_dirnext` goes behind the last slot of a sector. -/
def Mount.dirNext (m : Mount) (disk : Nat → Sector) (clus lba : Nat) : Option (Nat × Nat) :=
  if clus = 0 then
    if m.rootEntCount * 32 / 512 ≤ u32 (u32 (lba + 2 ^ 32 - m.firstRootSec) + 1) then none
    else some (0, u32 (lba + 1))
  else if u32 (u32 (lba + 2 ^ 32 - m.clusToLba clus) + 1) < m.secPerClus then
    some (clus, u32 (lba + 1))
  else if m.next disk clus = noClus then none
  else some (m.next disk clus, m.clusToLba (m.next disk clus))

/-- The sectors of a directory behind the one at this place. -/
def Mount.Behind (m : Mount) (disk : Nat → Sector) (capacity : Nat) :
    Nat → Nat → List Nat → Prop
  | clus, lba, [] =>
      (0 < lba ∧ lba < capacity ∧ clus < m.clusterCount + 2) ∧ m.dirNext disk clus lba = none
  | clus, lba, lba' :: rest =>
      (0 < lba ∧ lba < capacity ∧ clus < m.clusterCount + 2) ∧
        ∃ clus', m.dirNext disk clus lba = some (clus', lba') ∧
          Mount.Behind m disk capacity clus' lba' rest

theorem Mount.Behind.here {m : Mount} {disk : Nat → Sector} {capacity clus lba : Nat}
    {rest : List Nat} (behind : m.Behind disk capacity clus lba rest) :
    0 < lba ∧ lba < capacity ∧ clus < m.clusterCount + 2 := by
  cases rest with
  | nil => exact behind.1
  | cons lba' rest => exact behind.1

/-- The iterator stands in a sector of a directory, with these sectors behind it. -/
structure Standing (d : Driver) (it : DirIter) (rest : List Nat) : Prop where
  behind : d.m.Behind d.disk d.blk.capacity it.curClus it.curLba rest
  idx : it.entIdx ≤ 16
  cached : it.bufLbaValid = true → it.buf = d.disk it.bufLba

/-- The slots the iterator has not passed yet. -/
def DirIter.left (it : DirIter) (rest : List Nat) : List Slot :=
  (sectorSlots it.curLba).drop it.entIdx ++ dirSlots rest

variable {d : Driver} {it : DirIter} {rest : List Nat}

theorem Standing.of_device {d' : Driver} (standing : Standing d it rest) (blk : d'.blk = d.blk)
    (m : d'.m = d.m) : Standing d' it rest where
  behind := by
    rw [m, Driver.disk, blk]
    exact standing.behind
  idx := standing.idx
  cached := by
    rw [Driver.disk, blk]
    exact standing.cached

theorem length_sectorSlots (lba : Nat) : (sectorSlots lba).length = 16 := by
  simp [sectorSlots]

theorem drop_sectorSlots {lba idx : Nat} (more : idx < 16) :
    (sectorSlots lba).drop idx = { lba, off := idx * 32 } :: (sectorSlots lba).drop (idx + 1) := by
  rw [List.drop_eq_getElem_cons (by rwa [length_sectorSlots])]
  simp [sectorSlots]

theorem DirIter.left_cons (more : it.entIdx < 16) :
    it.left rest = { lba := it.curLba, off := it.entIdx * 32 } ::
      { it with entIdx := it.entIdx + 1 }.left rest := by
  rw [DirIter.left, drop_sectorSlots more]
  rfl

/-- What the step behind the last slot of a sector comes to. -/
def Mount.dirGo (m : Mount) (disk : Nat → Sector) (it : DirIter) :
    DirIter ⊕ (DirResult × DirIter) :=
  match m.dirNext disk it.curClus it.curLba with
  | none => .inr (.error 1, it)
  | some (clus, lba) => .inl (it.atSector clus lba)

/-- States of an iterator and the driver from which directories are read as they are on
the device, whatever the shared buffer holds. -/
structure Follows (b : BlkDev) (m : Mount) (Q : DirIter → Driver → Prop) : Prop where
  valid : m.valid = true
  capacity_lt : b.capacity < 2 ^ 32
  device : ∀ {it d}, Q it d → d.blk = b ∧ d.m = m
  samePlace : ∀ {it it' d}, Q it d → it'.curClus = it.curClus → it'.curLba = it.curLba →
    it'.entIdx = it.entIdx → Q it' d
  passed : ∀ {it d}, Q it d → (b.sec it.curLba).get (it.entIdx * 32) ≠ 0x00 →
    Q { it with entIdx := it.entIdx + 1 } d
  advance : ∀ {it d}, Q it d → it.entIdx = 16 → it.curClus < m.clusterCount + 2 →
    ∃ d', dirAdvance it d = some (m.dirGo b.sec it, d') ∧
      Sum.elim (Q · d') (fun result => Q result.2 d') (m.dirGo b.sec it)

/-- Another sector of the cluster comes after this one. -/
def Mount.Within (m : Mount) (clus lba : Nat) : Prop :=
  u32 (u32 (lba + 2 ^ 32 - m.clusToLba clus) + 1) < m.secPerClus

instance (m : Mount) (clus lba : Nat) : Decidable (m.Within clus lba) :=
  inferInstanceAs (Decidable (_ < _))

variable {m : Mount} {disk : Nat → Sector} {clus lba : Nat}

theorem dirNext_within (chain : clus ≠ 0) (within : m.Within clus lba) :
    m.dirNext disk clus lba = some (clus, u32 (lba + 1)) := by
  rw [Mount.dirNext, if_neg chain]
  exact if_pos within

theorem dirNext_fixed {place : Nat × Nat} (fixed : clus = 0)
    (next : m.dirNext disk clus lba = some place) : place.1 = 0 := by
  rw [Mount.dirNext, if_pos fixed] at next
  split at next
  · simp at next
  · rw [← Option.some.inj next]

/-- An iterator at the end of its sector stays there or moves to the next one. -/
theorem dirGo_rule {P : DirIter → Prop} {it : DirIter} (stays : P it)
    (moves : ∀ clus lba, m.dirNext disk it.curClus it.curLba = some (clus, lba) →
      P (it.atSector clus lba)) :
    Sum.elim P (fun result => P result.2) (m.dirGo disk it) := by
  unfold Mount.dirGo
  cases next : m.dirNext disk it.curClus it.curLba with
  | none => exact stays
  | some place => exact moves place.1 place.2 next

theorem dirAdvance_still (still : it.curClus = 0 ∨ d.m.Within it.curClus it.curLba) :
    dirAdvance it d = some (d.m.dirGo d.disk it, d) := by
  rw [dirAdvance, Prog.bind_eq_of_run (mount_run d), Mount.dirGo, Mount.dirNext]
  split
  · split <;> rfl
  · rename_i chain
    have within := still.resolve_left chain
    unfold Mount.Within at within
    rw [if_pos within, if_pos within]
    rfl

/-- Behind the last sector of a cluster its link is read. -/
theorem dirAdvance_reads {d' : Driver} (chain : it.curClus ≠ 0)
    (last : ¬ d.m.Within it.curClus it.curLba)
    (run : fatNextClus it.curClus d = some (d.m.next d.disk it.curClus, d')) :
    dirAdvance it d = some (d.m.dirGo d.disk it, d') := by
  rw [dirAdvance, Prog.bind_eq_of_run (mount_run d), Mount.dirGo, Mount.dirNext]
  unfold Mount.Within at last
  rw [if_neg chain, if_neg chain, if_neg last, if_neg last, Prog.bind_eq_of_run run]
  split <;> rfl

theorem Ready.follows (ready : Ready d) : Follows d.blk d.m fun _ d' => CacheStep d d' where
  valid := ready.sane.valid
  capacity_lt := ready.sane.capacity_lt
  device := fun step => ⟨step.blk, step.m⟩
  samePlace := fun step _ _ _ => step
  passed := fun step _ => step
  advance := by
    intro it d₁ step _ inRange
    have ready₁ := step.ready ready
    rw [← step.m] at inRange
    rw [← step.blk, ← step.m]
    by_cases fixed : it.curClus = 0
    · exact ⟨d₁, dirAdvance_still (Or.inl fixed), dirGo_rule step fun _ _ _ => step⟩
    by_cases within : d₁.m.Within it.curClus it.curLba
    · exact ⟨d₁, dirAdvance_still (Or.inr within), dirGo_rule step fun _ _ _ => step⟩
    · obtain ⟨d₂, next, cache⟩ := fatNextClus_run ready₁.good ready₁.sane inRange
      have kept : CacheStep d d₂ := step.trans cache
      exact ⟨d₂, dirAdvance_reads fixed within next, dirGo_rule kept fun _ _ _ => kept⟩

/-- The iterator with its sector in its buffer. -/
def DirIter.loaded (it : DirIter) (disk : Nat → Sector) : DirIter :=
  { it with buf := disk it.curLba, bufLba := it.curLba, bufLbaValid := true }

theorem dirLoadSector_run (small : d.blk.capacity < 2 ^ 32) (standing : Standing d it rest) :
    dirLoadSector it d = some (some (it.loaded d.disk), d) := by
  have inside := standing.behind.here.2.1
  unfold dirLoadSector
  split
  · rename_i current
    have buf := standing.cached current.1
    rw [current.2] at buf
    have same : it.loaded d.disk = it := by
      obtain ⟨valid, here⟩ := current
      cases it
      simp only at buf valid here
      simp [DirIter.loaded, buf, valid, here]
    rw [same]
  · exact if_pos ⟨by omega, by omega⟩

theorem Standing.loaded (standing : Standing d it rest) :
    Standing d (it.loaded d.disk) rest := ⟨standing.behind, standing.idx, fun _ => rfl⟩

theorem Standing.passed (standing : Standing d it rest) (more : it.entIdx < 16) (lfn : LfnBuf) :
    Standing d { it with entIdx := it.entIdx + 1, lfn } rest :=
  ⟨standing.behind, more, standing.cached⟩

/-- The slots and sectors an iterator has before it. -/
def DirIter.work (it : DirIter) (rest : List Nat) : Nat := (it.left rest).length + rest.length

/-- What `fat_dirnext` returns when this is left of the listing: at its end the code 1, and
there it stays. -/
def Delivers (d : Driver) (work : Nat) : List (Slot × Found) → DirResult × DirIter → Prop
  | [], result =>
      result.1 = .error 1 ∧ ∃ rest, Standing d result.2 rest ∧
        listing d.disk LfnBuf.clear (result.2.left rest) = [] ∧ result.2.work rest ≤ work
  | (slot, found) :: entries, result =>
      result.1 = .ok found ∧ result.2.slot = slot ∧ ∃ rest,
        Standing d result.2 rest ∧ listing d.disk LfnBuf.clear (result.2.left rest) = entries ∧
        result.2.work rest < work

theorem Delivers.mono {work work' : Nat} {entries : List (Slot × Found)}
    {result : DirResult × DirIter} (delivers : Delivers d work entries result)
    (le : work ≤ work') : Delivers d work' entries result := by
  cases entries with
  | nil =>
      obtain ⟨code, rest, standing, none, less⟩ := delivers
      exact ⟨code, rest, standing, none, less.trans le⟩
  | cons entry entries =>
      obtain ⟨found, slot, rest, standing, listed, less⟩ := delivers
      exact ⟨found, slot, rest, standing, listed, less.trans_le le⟩

variable {b : BlkDev} {Q : DirIter → Driver → Prop}

/-- The iterator behind its slot. -/
def DirIter.past (it : DirIter) (disk : Nat → Sector) (lfn : LfnBuf) : DirIter :=
  { it.loaded disk with entIdx := it.entIdx + 1, lfn }

/-- A slot that was never used ends the listing.  Any other is no entry, or the next one. -/
theorem entry_cases (it : DirIter) (disk : Nat → Sector) (more : it.entIdx < 16) :
    (((disk it.curLba).get (it.entIdx * 32) = 0x00 ∧
        (it.loaded disk).entry = .inr (.error 1, it.loaded disk)) ∧
      ∀ lfn rest, listing disk lfn (it.left rest) = []) ∨
    (disk it.curLba).get (it.entIdx * 32) ≠ 0x00 ∧
      ((∃ lfn, (it.loaded disk).entry = .inl (it.past disk lfn) ∧ ∀ rest,
          listing disk it.lfn (it.left rest) = listing disk lfn ((it.past disk lfn).left rest)) ∨
        ∃ found, (it.loaded disk).entry = .inr (.ok found, it.past disk LfnBuf.clear) ∧ ∀ rest,
          listing disk it.lfn (it.left rest) = ({ lba := it.curLba, off := it.entIdx * 32 }, found) ::
            listing disk LfnBuf.clear ((it.past disk LfnBuf.clear).left rest)) := by
  have left (rest : List Nat) := @DirIter.left_cons it rest more
  have past (lfn : LfnBuf) (rest : List Nat) : (it.past disk lfn).left rest =
      { it with entIdx := it.entIdx + 1 }.left rest := rfl
  simp only [left, past, listing]
  unfold DirIter.entry
  dsimp only [DirIter.loaded, DirIter.past]
  split
  · exact .inl ⟨⟨‹_›, rfl⟩, fun _ _ => rfl⟩
  rename_i used
  refine .inr ⟨used, ?_⟩
  split
  · exact .inl ⟨_, rfl, fun _ => rfl⟩
  split
  · exact .inl ⟨_, rfl, fun _ => rfl⟩
  split
  · exact .inl ⟨_, rfl, fun _ => rfl⟩
  · exact .inr ⟨_, rfl, fun _ => rfl⟩

theorem DirIter.work_past (more : it.entIdx < 16) (lfn : LfnBuf) :
    (it.past disk lfn).work rest < it.work rest := by
  unfold DirIter.work
  rw [@DirIter.left_cons it rest more, List.length_cons]
  exact Nat.add_lt_add_right (Nat.lt_succ_self _) _

/-- A slot: the round that looks at it. -/
theorem entry_run (follows : Follows b m Q) (q : Q it d) (standing : Standing d it rest)
    (more : it.entIdx < 16) :
    (∃ it', (it.loaded d.disk).entry = .inl it' ∧ Q it' d ∧ Standing d it' rest ∧
      it'.work rest < it.work rest ∧
      listing d.disk it'.lfn (it'.left rest) = listing d.disk it.lfn (it.left rest)) ∨
    ∃ result, (it.loaded d.disk).entry = .inr result ∧ Q result.2 d ∧
      Delivers d (it.work rest) (listing d.disk it.lfn (it.left rest)) result := by
  have passed (lfn : LfnBuf) : Standing d (it.past d.disk lfn) rest :=
    standing.loaded.passed more lfn
  have device := (follows.device q).1
  rcases entry_cases it d.disk more with ⟨⟨-, ends⟩, none_left⟩ | ⟨used, entry⟩
  · refine .inr ⟨_, ends, follows.samePlace q rfl rfl rfl, ?_⟩
    rw [none_left]
    exact ⟨rfl, rest, standing.loaded, none_left _ _, le_rfl⟩
  have kept (lfn : LfnBuf) : Q (it.past d.disk lfn) d := by
    rw [Driver.disk, device] at used
    exact follows.samePlace (follows.passed q used) rfl rfl rfl
  rcases entry with ⟨lfn, goesOn, same⟩ | ⟨found, shows, same⟩
  · exact .inl ⟨_, goesOn, kept lfn, passed lfn, DirIter.work_past more lfn, (same rest).symm⟩
  · refine .inr ⟨_, shows, kept _, ?_⟩
    rw [same]
    exact ⟨rfl, rfl, rest, passed _, rfl, DirIter.work_past more _⟩

/-- What a step to the next sector leaves of the walk. -/
structure Moved (Q : DirIter → Driver → Prop) (d : Driver) (it : DirIter) (lba : Nat)
    (rest : List Nat) (it' : DirIter) (d' : Driver) : Prop where
  kept : Q it' d'
  disk : d'.disk = d.disk
  standing : Standing d' it' rest
  left : it'.left rest = it.left (lba :: rest)
  less : it'.work rest < it.work (lba :: rest)
  lfn : it'.lfn = it.lfn

/-- Behind the last slot of a sector the round goes on to the next one. -/
theorem dirRound_end (small : d.blk.capacity < 2 ^ 32) (standing : Standing d it rest)
    (last : it.entIdx = 16) : dirRound it d = dirAdvance (it.loaded d.disk) d := by
  rw [dirRound, if_neg (Nat.ne_of_gt standing.behind.here.1),
    Prog.bind_eq_of_run (dirLoadSector_run small standing)]
  dsimp only
  rw [if_pos (show 16 ≤ (it.loaded d.disk).entIdx from last.ge)]

theorem dirRound_slot (small : d.blk.capacity < 2 ^ 32) (standing : Standing d it rest)
    (more : it.entIdx < 16) : dirRound it d = some ((it.loaded d.disk).entry, d) := by
  rw [dirRound, if_neg (Nat.ne_of_gt standing.behind.here.1),
    Prog.bind_eq_of_run (dirLoadSector_run small standing)]
  dsimp only
  rw [if_neg (show ¬ 16 ≤ (it.loaded d.disk).entIdx from Nat.not_le.mpr more)]
  rfl

theorem dirRound_last (follows : Follows b m Q) (q : Q it d) (standing : Standing d it rest)
    (last : it.entIdx = 16) :
    ∃ d', dirRound it d = some (d.m.dirGo d.disk (it.loaded d.disk), d') ∧
      Sum.elim (Q · d') (fun result => Q result.2 d') (d.m.dirGo d.disk (it.loaded d.disk)) := by
  obtain ⟨rfl, rfl⟩ := follows.device q
  have loaded : Q (it.loaded d.disk) d := follows.samePlace q rfl rfl rfl
  obtain ⟨d', advance, kept⟩ := follows.advance loaded last standing.behind.here.2.2
  exact ⟨d', (dirRound_end follows.capacity_lt standing last).trans advance, kept⟩

theorem DirIter.left_last (last : it.entIdx = 16) : it.left rest = dirSlots rest := by
  have passed : (sectorSlots it.curLba).drop it.entIdx = [] := by
    rw [last, List.drop_eq_nil_iff, length_sectorSlots]
  rw [DirIter.left, passed, List.nil_append]

/-- A round that goes on to the sector behind. -/
theorem moves_of_round {d' : Driver} {lba : Nat} (standing : Standing d it (lba :: rest))
    (last : it.entIdx = 16)
    (round : dirRound it d = some (d.m.dirGo d.disk (it.loaded d.disk), d'))
    (kept : Sum.elim (Q · d') (fun result => Q result.2 d') (d.m.dirGo d.disk (it.loaded d.disk)))
    (blk : d'.blk = d.blk) (mount : d'.m = d.m) :
    ∃ it', dirRound it d = some (.inl it', d') ∧ Moved Q d it lba rest it' d' := by
  obtain ⟨-, clus, goes, behind⟩ := standing.behind
  have next : d.m.dirGo d.disk (it.loaded d.disk) =
      .inl ((it.loaded d.disk).atSector clus lba) := by
    unfold Mount.dirGo
    dsimp only [DirIter.loaded]
    rw [goes]
  rw [next] at round kept
  have same : ((it.loaded d.disk).atSector clus lba).left rest = it.left (lba :: rest) := by
    rw [DirIter.left_last last]
    rfl
  have moved : Standing d ((it.loaded d.disk).atSector clus lba) rest :=
    ⟨behind, Nat.zero_le _, nofun⟩
  refine ⟨_, round, kept, congrArg BlkDev.sec blk, moved.of_device blk mount, same, ?_, rfl⟩
  unfold DirIter.work
  rw [same]
  exact Nat.lt_succ_self _

/-- A round at the end of the directory. -/
theorem ends_of_round {d' : Driver} (standing : Standing d it [])
    (round : dirRound it d = some (d.m.dirGo d.disk (it.loaded d.disk), d')) :
    d.m.dirGo d.disk (it.loaded d.disk) = .inr (.error 1, it.loaded d.disk) ∧
      dirRound it d = some (.inr (.error 1, it.loaded d.disk), d') := by
  have next : d.m.dirGo d.disk (it.loaded d.disk) = .inr (.error 1, it.loaded d.disk) := by
    unfold Mount.dirGo
    dsimp only [DirIter.loaded]
    rw [standing.behind.2]
  rw [next] at round
  exact ⟨next, round⟩

theorem Follows.device_of_elim {result : DirIter ⊕ (DirResult × DirIter)} (follows : Follows b m Q)
    (kept : Sum.elim (Q · d) (fun result => Q result.2 d) result) : d.blk = b ∧ d.m = m := by
  cases result with
  | inl it => exact follows.device kept
  | inr result => exact follows.device kept

theorem dirRound_moves {lba : Nat} (follows : Follows b m Q) (q : Q it d)
    (standing : Standing d it (lba :: rest)) (last : it.entIdx = 16) :
    ∃ it' d', dirRound it d = some (.inl it', d') ∧ Moved Q d it lba rest it' d' := by
  obtain ⟨d', round, kept⟩ := dirRound_last follows q standing last
  obtain ⟨blk, mount⟩ := follows.device q
  obtain ⟨blk', mount'⟩ := follows.device_of_elim kept
  obtain ⟨it', run, moved⟩ := moves_of_round standing last round kept (blk'.trans blk.symm)
    (mount'.trans mount.symm)
  exact ⟨it', d', run, moved⟩

/-- The loop of `fat_dirnext` comes to the next entry of the listing. -/
theorem dirLoop_follows {rounds : Nat} (follows : Follows b m Q) (q : Q it d)
    (standing : Standing d it rest) (enough : it.work rest < rounds) :
    ∃ result d', Prog.loop dirRound rounds it d = some (result, d') ∧ Q result.2 d' ∧
      Delivers d' (it.work rest) (listing d.disk it.lfn (it.left rest)) result := by
  induction rounds generalizing d it rest with
  | zero => omega
  | succ rounds ih =>
      by_cases more : it.entIdx < 16
      · have capacity := follows.capacity_lt
        rw [← (follows.device q).1] at capacity
        have round := dirRound_slot capacity standing more
        rcases entry_run follows q standing more with ⟨it', entry, q', standing', less, same⟩ |
          ⟨result, entry, q', delivers⟩
        · rw [entry] at round
          obtain ⟨result, d', run, kept, delivers⟩ := ih q' standing' (by omega)
          rw [same] at delivers
          exact ⟨result, d', (Prog.loop_inl round).trans run, kept, delivers.mono less.le⟩
        · rw [entry] at round
          exact ⟨result, d, Prog.loop_inr round, q', delivers⟩
      · have last : it.entIdx = 16 := Nat.le_antisymm standing.idx (Nat.not_lt.mp more)
        cases rest with
        | nil =>
            obtain ⟨d₁, round, kept⟩ := dirRound_last follows q standing last
            obtain ⟨next, round⟩ := ends_of_round standing round
            rw [next] at kept
            obtain ⟨blk, mount⟩ := follows.device q
            obtain ⟨blk', mount'⟩ := follows.device kept
            have none_left : (it.loaded d.disk).left [] = [] := DirIter.left_last last
            refine ⟨_, d₁, Prog.loop_inr round, kept, ?_⟩
            rw [DirIter.left_last last]
            refine ⟨rfl, [], standing.loaded.of_device (blk'.trans blk.symm)
              (mount'.trans mount.symm), ?_, le_rfl⟩
            rw [none_left]
            rfl
        | cons lba rest =>
            obtain ⟨it', d₁, round, moved⟩ := dirRound_moves follows q standing last
            have less := moved.less
            obtain ⟨result, d', run, kept, delivers⟩ := ih moved.kept moved.standing (by omega)
            rw [moved.left, moved.disk, moved.lfn] at delivers
            exact ⟨result, d', (Prog.loop_inl round).trans run, kept, delivers.mono less.le⟩

/-- `fat_dirnext` returns what is left of the listing, one entry a call. -/
theorem fatDirnext_follows {rounds : Nat} (follows : Follows b m Q) (q : Q it d)
    (standing : Standing d it rest) (enough : it.work rest < rounds) :
    ∃ result d', fatDirnext rounds it d = some (result, d') ∧ Q result.2 d' ∧
      Delivers d' (it.work rest) (listing d.disk LfnBuf.clear (it.left rest)) result := by
  have valid : ¬ (!d.m.valid) = true := by simp [(follows.device q).2, follows.valid]
  have cleared : Standing d { it with lfn := LfnBuf.clear } rest :=
    ⟨standing.behind, standing.idx, standing.cached⟩
  have place : Q { it with lfn := LfnBuf.clear } d := follows.samePlace q rfl rfl rfl
  rw [fatDirnext, Prog.bind_eq_of_run (mount_run d), if_neg valid]
  exact dirLoop_follows follows place cleared enough

theorem fatDirnext_run {rounds : Nat} (ready : Ready d) (standing : Standing d it rest)
    (enough : it.work rest < rounds) :
    ∃ result d', fatDirnext rounds it d = some (result, d') ∧ CacheStep d d' ∧
      Delivers d' (it.work rest) (listing d.disk LfnBuf.clear (it.left rest)) result :=
  fatDirnext_follows ready.follows (CacheStep.refl ready.good) standing enough

/-- A search through a directory is a search through its listing. -/
theorem searchDir_run (rounds rounds' : Nat) (accept : Found → Bool) (ready : Ready d)
    (standing : Standing d it rest) (enough : it.work rest < rounds)
    (enough' : it.work rest < rounds') :
    ∃ it' d', Prog.loop (searchRound rounds accept) rounds' it d =
        some ((((listing d.disk LfnBuf.clear (it.left rest)).find? (accept ·.2)).map Prod.snd, it'),
          d') ∧ CacheStep d d' ∧
      ∀ entry, (listing d.disk LfnBuf.clear (it.left rest)).find? (accept ·.2) = some entry →
        it'.slot = entry.1 := by
  induction rounds' generalizing d it rest with
  | zero => omega
  | succ rounds' ih =>
      obtain ⟨⟨result, it₁⟩, d₁, run₁, step₁, delivers⟩ := fatDirnext_run ready standing enough
      have first : searchRound rounds accept it d = some (match result with
          | .error _ => .inr (none, it₁)
          | .ok found => if accept found then .inr (some found, it₁) else .inl it₁, d₁) := by
        rw [searchRound, Prog.bind_eq_of_run run₁]
        cases result <;> rfl
      cases listed : listing d.disk LfnBuf.clear (it.left rest) with
      | nil =>
          rw [listed] at delivers
          have failed : result = .error 1 := delivers.1
          subst failed
          exact ⟨it₁, d₁, Prog.loop_inr first, step₁, nofun⟩
      | cons entry entries =>
          rw [listed] at delivers
          obtain ⟨ok, slot, rest', standing', same, less⟩ := delivers
          have ok : result = .ok entry.2 := ok
          subst ok
          by_cases accepted : accept entry.2 = true
          · rw [show (entry :: entries).find? (accept ·.2) = some entry from
              List.find?_cons_of_pos accepted]
            dsimp only at first
            rw [if_pos accepted] at first
            refine ⟨it₁, d₁, Prog.loop_inr first, step₁, ?_⟩
            rintro found ⟨⟩
            exact slot
          · rw [show (entry :: entries).find? (accept ·.2) = entries.find? (accept ·.2) from
              List.find?_cons_of_neg accepted]
            dsimp only at first
            rw [if_neg accepted] at first
            obtain ⟨it', d', run, step, place⟩ :=
              ih (step₁.ready ready) standing' (by omega) (by omega)
            rw [same] at run place
            exact ⟨it', d', (Prog.loop_inl first).trans run, step₁.trans step, place⟩

end Iterator

section Root

variable {m : Mount} {disk : Nat → Sector} {capacity : Nat}

/-- The sectors of the root directory. -/
def Mount.RootSectors (m : Mount) (disk : Nat → Sector) (capacity : Nat) (lbas : List Nat) :
    Prop :=
  ∃ rest, lbas = m.diropenRoot.curLba :: rest ∧
    m.Behind disk capacity m.diropenRoot.curClus m.diropenRoot.curLba rest

/-- Sectors in a row. -/
theorem behind_row {clus count lba : Nat} {tail : List Nat} (inRange : clus < m.clusterCount + 2)
    (positive : 0 < lba) (inside : lba + count < capacity)
    (step : ∀ i, i < count → m.dirNext disk clus (lba + i) = some (clus, lba + i + 1))
    (last : m.Behind disk capacity clus (lba + count) tail) :
    m.Behind disk capacity clus lba (List.range' (lba + 1) count ++ tail) := by
  induction count generalizing lba with
  | zero => exact last
  | succ count ih =>
      rw [List.range'_succ, List.cons_append]
      refine ⟨⟨positive, by omega, inRange⟩, clus, step 0 (Nat.succ_pos count), ?_⟩
      refine ih (Nat.succ_pos lba) (by omega) (fun i small => ?_) ?_
      · have next := step (i + 1) (by omega)
        rwa [← Nat.add_assoc, Nat.add_right_comm lba i 1] at next
      · rwa [Nat.add_right_comm, Nat.add_assoc]

theorem rootLbas_row (fits : m.firstRootSec + m.rootEntCount * 32 / 512 ≤ capacity)
    (small : capacity < 2 ^ 32) :
    m.rootLbas = List.range' m.firstRootSec (m.rootEntCount * 32 / 512) := by
  rw [Mount.rootLbas, List.range'_eq_map_range]
  refine List.map_congr_left fun s inRoot => u32_of_lt ?_
  have inside := List.mem_range.mp inRoot
  omega

/-- The sectors of a fixed root directory. -/
theorem behind_root (positive : 0 < m.firstRootSec) {count : Nat}
    (sectors : m.rootEntCount * 32 / 512 = count + 1)
    (fits : m.firstRootSec + m.rootEntCount * 32 / 512 ≤ capacity) (small : capacity < 2 ^ 32) :
    m.Behind disk capacity 0 m.firstRootSec (List.range' (m.firstRootSec + 1) count) := by
  have back {lba : Nat} (after : m.firstRootSec ≤ lba) (inside : lba < capacity) :
      u32 (u32 (lba + 2 ^ 32 - m.firstRootSec) + 1) = lba - m.firstRootSec + 1 :=
    u32_back after (by omega)
  rw [← List.append_nil (List.range' _ _)]
  refine behind_row (by omega) (by omega) (by omega) (fun i small => ?_) ⟨⟨?_, ?_, ?_⟩, ?_⟩
  · rw [Mount.dirNext, if_pos rfl, back (by omega) (by omega), if_neg (by omega),
      u32_of_lt (by omega)]
  · omega
  · omega
  · omega
  · rw [Mount.dirNext, if_pos rfl, back (by omega) (by omega), if_pos (by omega)]

theorem rootSectors_fixed (sane : m.Sane capacity) (narrow : m.type ≠ .fat32) :
    m.RootSectors disk capacity m.rootLbas := by
  have bound := sane.capacity_lt
  have fits := sane.dataFits
  have data := sane.dataStart
  have entries := sane.fixedRoot narrow
  have whole := sane.rootWhole
  have start := sane.rootStart
  have reserved := sane.reserved
  obtain ⟨count, sectors⟩ : ∃ count, m.rootEntCount * 32 / 512 = count + 1 :=
    ⟨m.rootEntCount * 32 / 512 - 1, by omega⟩
  have root : m.diropenRoot = { DirIter.fresh with curLba := m.firstRootSec } := if_neg narrow
  rw [rootLbas_row (by omega) bound, sectors, List.range'_succ, Mount.RootSectors, root]
  exact ⟨_, rfl, behind_root (by omega) sectors (by omega) bound⟩

namespace Mount.Lays

theorem clusterLbas_row (lays : m.Lays capacity) {c : Nat} (isCluster : m.IsCluster c) :
    m.clusterLbas c = List.range' (m.dataLba c 0) m.secPerClus := by
  rw [lays.clusterLbas_eq isCluster, List.range'_eq_map_range]
  rfl

theorem dataLba_pos (lays : m.Lays capacity) (c s : Nat) : 0 < m.dataLba c s := by
  have start := lays.dataStart
  unfold Mount.dataLba
  omega

/-- The last sector of a cluster. -/
theorem dirNext_last (lays : m.Lays capacity) {c count : Nat} (isCluster : m.IsCluster c)
    (size : m.secPerClus = count + 1) :
    m.dirNext disk c (m.dataLba c count) =
      if m.next disk c = noClus then none
      else some (m.next disk c, m.clusToLba (m.next disk c)) := by
  have bound := lays.capacity_lt
  have inside : m.dataLba c count < capacity := lays.dataLba_lt isCluster (by omega)
  have isChain : ¬ c = 0 := Nat.ne_of_gt (Nat.lt_of_succ_lt isCluster.1)
  have start : m.clusToLba c = m.dataLba c 0 := lays.clusToLba_eq isCluster
  have row : m.dataLba c 0 + count = m.dataLba c count := rfl
  rw [Mount.dirNext, if_neg isChain, start, u32_back (by omega) (by omega), if_neg (by omega)]

/-- A sector of a cluster before the last. -/
theorem dirNext_inside (lays : m.Lays capacity) {c s : Nat} (isCluster : m.IsCluster c)
    (more : s + 1 < m.secPerClus) :
    m.dirNext disk c (m.dataLba c s) = some (c, m.dataLba c s + 1) := by
  have bound := lays.capacity_lt
  have inside : m.dataLba c (s + 1) < capacity := lays.dataLba_lt isCluster more
  have isChain : ¬ c = 0 := Nat.ne_of_gt (Nat.lt_of_succ_lt isCluster.1)
  have start : m.clusToLba c = m.dataLba c 0 := lays.clusToLba_eq isCluster
  have row : m.dataLba c 0 + s = m.dataLba c s := rfl
  have next : m.dataLba c s + 1 = m.dataLba c (s + 1) := rfl
  rw [Mount.dirNext, if_neg isChain, start, u32_back (by omega) (by omega), if_pos (by omega),
    u32_of_lt (by omega)]

/-- The sectors of a chain of clusters. -/
theorem behind_chain (lays : m.Lays capacity) {c : Nat} {rest : List Nat}
    (chain : m.Chain disk (c :: rest)) :
    ∃ sectors, (c :: rest).flatMap m.clusterLbas = m.dataLba c 0 :: sectors ∧
      m.Behind disk capacity c (m.dataLba c 0) sectors := by
  obtain ⟨count, size⟩ : ∃ count, m.secPerClus = count + 1 :=
    ⟨m.secPerClus - 1, (Nat.succ_pred_eq_of_pos lays.sectors).symm⟩
  have positive : 0 < m.dataLba c 0 := lays.dataLba_pos c 0
  induction rest generalizing c with
  | nil =>
      have isCluster : m.IsCluster c := chain.isCluster 0 Nat.one_pos
      have last : m.next disk c = noClus := chain.next_last (k := 0) rfl
      have lastIn : m.dataLba c count < capacity := lays.dataLba_lt isCluster (by omega)
      refine ⟨List.range' (m.dataLba c 0 + 1) count ++ [], ?_, ?_⟩
      · rw [List.flatMap_cons, lays.clusterLbas_row isCluster, size, List.range'_succ]
        rfl
      have inner (s : Nat) (small : s < count) :
          m.dirNext disk c (m.dataLba c 0 + s) = some (c, m.dataLba c 0 + s + 1) :=
        lays.dirNext_inside isCluster (by omega)
      have goes := @dirNext_last m disk capacity lays c count isCluster size
      rw [if_pos last] at goes
      have ends : m.Behind disk capacity c (m.dataLba c 0 + count) [] :=
        ⟨⟨lays.dataLba_pos c count, lastIn, isCluster.2⟩, goes⟩
      exact behind_row isCluster.2 positive lastIn inner ends
  | cons c' rest ih =>
      have isCluster : m.IsCluster c := chain.isCluster 0 (Nat.succ_pos _)
      have isCluster' : m.IsCluster c' := chain.isCluster 1 (by simp)
      have next := lays.next_eq chain (k := 0) (by simp)
      change m.next disk c = c' at next
      have lastIn : m.dataLba c count < capacity := lays.dataLba_lt isCluster (by omega)
      obtain ⟨sectors, same, behind⟩ := ih chain.tail (lays.dataLba_pos c' 0)
      refine ⟨List.range' (m.dataLba c 0 + 1) count ++ m.dataLba c' 0 :: sectors, ?_, ?_⟩
      · rw [List.flatMap_cons, same, lays.clusterLbas_row isCluster, size, List.range'_succ]
        rfl
      have inner (s : Nat) (small : s < count) :
          m.dirNext disk c (m.dataLba c 0 + s) = some (c, m.dataLba c 0 + s + 1) :=
        lays.dirNext_inside isCluster (by omega)
      have goes := @dirNext_last m disk capacity lays c count isCluster size
      rw [if_neg (by rw [next]; exact lays.cluster_ne_noClus isCluster'), next,
        lays.clusToLba_eq isCluster'] at goes
      have last : m.Behind disk capacity c (m.dataLba c 0 + count) (m.dataLba c' 0 :: sectors) :=
        ⟨⟨lays.dataLba_pos c count, lastIn, isCluster.2⟩, c', goes, behind⟩
      exact behind_row isCluster.2 positive lastIn inner last

end Mount.Lays

theorem rootSectors_chain (sane : m.Sane capacity) (fat32 : m.type = .fat32) {rest : List Nat}
    (chain : m.Chain disk (m.rootClus :: rest)) :
    m.RootSectors disk capacity ((m.rootClus :: rest).flatMap m.clusterLbas) := by
  obtain ⟨sectors, same, behind⟩ := sane.lays.behind_chain chain
  have root : m.diropenRoot = m.diropenClus m.rootClus := if_pos fat32
  have start : m.diropenRoot.curLba = m.dataLba m.rootClus 0 := by
    rw [root]
    exact clusToLba_eq sane (sane.rootIsCluster fat32)
  have clus : m.diropenRoot.curClus = m.rootClus := by rw [root]; rfl
  exact ⟨sectors, by rw [start, same], by rw [start, clus]; exact behind⟩

end Root

section Lookups

variable {d : Driver} {lbas : List Nat} {rounds : Nat}

/-- An iterator as it is opened stands before the first sector. -/
theorem standing_opened {it : DirIter} {rest : List Nat}
    (fresh : it.entIdx = 0 ∧ it.bufLbaValid = false) (same : lbas = it.curLba :: rest)
    (behind : d.m.Behind d.disk d.blk.capacity it.curClus it.curLba rest) :
    ∃ rest, Standing d it rest ∧ it.left rest = dirSlots lbas ∧
      it.work rest < 17 * lbas.length := by
  have left : it.left rest = dirSlots lbas := by
    rw [DirIter.left, fresh.1, List.drop_zero, same]
    rfl
  refine ⟨rest, ⟨behind, by omega, fun valid => ?_⟩, left, ?_⟩
  · rw [fresh.2] at valid
    exact absurd valid (by decide)
  · have slots : (dirSlots lbas).length = 16 * lbas.length := by
      simp [dirSlots, length_sectorSlots, Nat.mul_comm]
    have count := congrArg List.length same
    rw [List.length_cons] at count
    rw [DirIter.work, left, slots]
    omega

theorem standing_root (root : d.m.RootSectors d.disk d.blk.capacity lbas) :
    ∃ rest, Standing d d.m.diropenRoot rest ∧
      d.m.diropenRoot.left rest = dirSlots lbas ∧
      d.m.diropenRoot.work rest < 17 * lbas.length := by
  obtain ⟨rest, same, behind⟩ := root
  refine standing_opened ?_ same behind
  unfold Mount.diropenRoot
  split <;> exact ⟨rfl, rfl⟩

/-- `fat_find_dirent` finds the first listed entry with the name. -/
theorem fatFindDirent_run (ready : Ready d)
    (root : d.m.RootSectors d.disk d.blk.capacity lbas) (enough : 17 * lbas.length ≤ rounds)
    (raw : List UInt8) :
    ∃ d', fatFindDirent rounds raw d = some (((dirListing d.disk lbas).find?
        fun entry => !hasAttr entry.2.de.attr attrVolid && entry.2.de.name = raw).map Prod.fst,
          d') ∧ CacheStep d d' := by
  obtain ⟨rest, standing, left, less⟩ := standing_root root
  obtain ⟨it', d', run, step, place⟩ := searchDir_run rounds rounds
    (fun f => !hasAttr f.de.attr attrVolid && f.de.name = raw) ready standing (by omega) (by omega)
  rw [left] at run place
  refine ⟨d', ?_, step⟩
  rw [fatFindDirent, Prog.bind_eq_of_run (mount_run d), findRaw, searchDir,
    Prog.bind_eq_of_run run]
  cases found : (dirListing d.disk lbas).find?
      fun entry => !hasAttr entry.2.de.attr attrVolid && entry.2.de.name = raw with
  | none =>
      have found : (listing d.disk LfnBuf.clear (dirSlots lbas)).find? _ = none := found
      rw [found]
      rfl
  | some entry =>
      have slot := place entry found
      have found : (listing d.disk LfnBuf.clear (dirSlots lbas)).find? _ = some entry := found
      rw [found]
      change some (some it'.slot, d') = some (some entry.1, d')
      rw [slot]

/-- `fat_fopen` of a file in the root directory. -/
theorem fatFopen_root (ready : Ready d)
    (root : d.m.RootSectors d.disk d.blk.capacity lbas) (enough : 17 * lbas.length ≤ rounds)
    {path name : List UInt8} (isName : components path = [(name, false)]) (fp : FatFile) :
    ∃ d', fatFopen rounds path fp d =
        some (match (dirListing d.disk lbas).find? (·.2.matches name) with
          | none => (-2, fp)
          | some entry => if entry.2.de.isDir then (-4, fp) else (0, fp.opened entry.2.de), d') ∧
      CacheStep d d' := by
  obtain ⟨rest, standing, left, less⟩ := standing_root root
  obtain ⟨it', d', run, step, -⟩ := searchDir_run rounds rounds
    (·.matches name) ready standing (by omega) (by omega)
  rw [left] at run
  have valid : ¬ (!d.m.valid) = true := by simp [ready.sane.valid]
  refine ⟨d', ?_, step⟩
  rw [fatFopen, Prog.bind_eq_of_run (mount_run d), if_neg valid, isName, walkFile,
    findEntryInDir, searchDir, Prog.bind_eq_of_run run]
  change _ = some (match (listing d.disk LfnBuf.clear (dirSlots lbas)).find? _ with
    | none => _
    | some entry => _, d')
  cases (listing d.disk LfnBuf.clear (dirSlots lbas)).find? (·.2.matches name) with
  | none => rfl
  | some entry =>
      change (if entry.2.de.isDir then pure (-4, fp)
        else pure (0, fp.opened entry.2.de) : DriverM (Int × FatFile)) d' =
          some (if entry.2.de.isDir then (-4, fp) else (0, fp.opened entry.2.de), d')
      split <;> rfl

end Lookups

end Ncd15.Fat
