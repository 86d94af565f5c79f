import Ncd15.Fat.Listing
import Ncd15.Fat.MountGeometry
import Ncd15.Fat.SharedBufferRuns
import Ncd15.Library.Cursor

/-!
# Enumerating a directory

`fat_dirnext` called again and again after a directory is opened, on any mounted volume
whose table, root directory and clusters lie on the device.
-/

namespace Ncd15.Fat

open Ncd15.Library

section Volumes

/-- The table of a mounted volume covers its clusters, and the table, the root directory
and the clusters lie on the device. -/
structure Readable (d : Driver) : Prop where
  mounted : ∃ d₀ d₁, fatMount d₀ = some (0, d₁) ∧ d.m = d₁.m
  covers : ∀ c, c < d.m.clusterCount + 2 → d.m.rawOff c + d.m.entryWidth ≤ d.m.fatSec * 512
  inMemory : d.blk.InMemory
  onDevice : d.m.rsvdSec + d.m.numFats * d.m.fatSec + (d.m.rootEntCount * 32 + 511) / 512 +
    d.m.clusterCount * d.m.secPerClus ≤ d.blk.capacity

variable {d d' : Driver} {c : Nat}

theorem fatMount_firstRootSec {d d' : Driver} (run : fatMount d = some (0, d')) :
    d'.m.firstRootSec = u32 (d'.m.rsvdSec + u32 (d'.m.numFats * d'.m.fatSec)) := by
  obtain ⟨m, -, mounted⟩ := fatMount_mounts run
  rw [mounted]
  rfl

namespace Readable

theorem of_device (readable : Readable d) (blk : d'.blk = d.blk) (m : d'.m = d.m) :
    Readable d' := by
  refine ⟨?_, ?_, ?_, ?_⟩
  · rw [m]
    exact readable.mounted
  · rw [m]
    exact readable.covers
  · rw [blk]
    exact readable.inMemory
  · rw [m, blk]
    exact readable.onDevice

theorem accepted (readable : Readable d) : d.m.Accepted := by
  obtain ⟨d₀, d₁, run, same⟩ := readable.mounted
  rw [same]
  exact fatMount_accepted run

theorem capacity_lt (readable : Readable d) : d.blk.capacity < 2 ^ 23 := by
  have bytes := readable.inMemory
  unfold BlkDev.InMemory at bytes
  omega

/-- No sector number wraps. -/
theorem starts (readable : Readable d) :
    d.m.firstRootSec = d.m.rsvdSec + d.m.numFats * d.m.fatSec ∧
      d.m.firstDataSec = d.m.firstRootSec + (d.m.rootEntCount * 32 + 511) / 512 := by
  have small := readable.capacity_lt
  have device := readable.onDevice
  have tables : u32 (d.m.numFats * d.m.fatSec) = d.m.numFats * d.m.fatSec := u32_of_lt (by omega)
  obtain ⟨d₀, d₁, run, same⟩ := readable.mounted
  have gives := fatMount_gives run
  have root := fatMount_firstRootSec run
  have data := gives.firstDataSec
  rw [← gives.rsvdSec, ← gives.numFats, ← gives.fatSec, ← gives.rootEntCount] at data
  rw [← same] at root data
  rw [tables] at root data
  rw [u32_of_lt (by omega)] at root data
  omega

theorem fatSec_pos (readable : Readable d) : 0 < d.m.numFats * d.m.fatSec := by
  have covered := readable.covers 0 (by omega)
  have width := d.m.entryWidth_pos
  exact Nat.mul_pos readable.accepted.fats (by omega)

theorem lays (readable : Readable d) : d.m.Lays d.blk.capacity where
  capacity_lt := by
    have small := readable.capacity_lt
    omega
  sectors := readable.accepted.sectors
  dataStart := by
    have positive := readable.fatSec_pos
    have starts := readable.starts
    omega
  dataFits := by
    have device := readable.onDevice
    have starts := readable.starts
    omega
  count_le := by
    have type := readable.accepted.type_eq
    have device := readable.onDevice
    have small := readable.capacity_lt
    have product := Nat.mul_le_mul_left d.m.clusterCount readable.accepted.sectors
    unfold Mount.mark
    split at type
    · simp only [type]
      omega
    split at type <;> simp only [type] <;> omega

theorem table_le (readable : Readable d) : d.m.rsvdSec + d.m.fatSec ≤ d.blk.capacity := by
  have device := readable.onDevice
  have first := Nat.mul_le_mul_right d.m.fatSec readable.accepted.fats
  omega

theorem places (readable : Readable d) (inRange : c < d.m.clusterCount + 2) : d.m.Places c := by
  have covered := readable.covers c inRange
  have table := readable.table_le
  have small := readable.capacity_lt
  exact ⟨by omega, covered, by omega⟩

theorem hasEntry (readable : Readable d) (inRange : c < d.m.clusterCount + 2) :
    d.HasEntry c :=
  (readable.places inRange).hasEntry readable.table_le
    (readable.capacity_lt.trans (by decide))

end Readable

end Volumes

section Links

variable {d : Driver} {c : Nat}

/-- The link of a cluster is not read from a stale buffer.  The code reads an entry that
spans sectors anew in any case. -/
def Driver.FreshFor (d : Driver) (c : Nat) : Prop :=
  d.fatBufValid = true → d.fatBufLba = d.m.entryLba c → ¬ d.m.Straddles c →
    d.fatWbuf = d.disk d.fatBufLba

theorem Driver.Coherent.freshFor (coherent : d.Coherent) (c : Nat) : d.FreshFor c :=
  fun valid _ _ => coherent valid

/-- A read that the buffer does not answer is one with an empty buffer. -/
theorem readFatSec_miss {lba : Nat} (miss : ¬ (d.fatBufValid ∧ d.fatBufLba = lba))
    (has : d.blk.Has lba) : readFatSec lba d = readFatSec lba d.invalidated := by
  have empty : ¬ (d.invalidated.fatBufValid ∧ d.invalidated.fatBufLba = lba) := by
    simp [Driver.invalidated]
  rw [readFatSec, readFatSec, if_neg miss, if_neg empty, if_pos has]
  exact (if_pos has).symm

theorem readFatSec_then_miss {lba : Nat} (miss : ¬ (d.fatBufValid ∧ d.fatBufLba = lba))
    (has : d.blk.Has lba) {α : Type} (failed : α) (next : DriverM α) :
    (do if !(← readFatSec lba) then pure failed else next) d =
      (do if !(← readFatSec lba) then pure failed else next) d.invalidated := by
  rw [Prog.bind_run, Prog.bind_run, readFatSec_miss miss has]

theorem fatNextClus_miss (miss : ¬ (d.fatBufValid ∧ d.fatBufLba = d.m.entryLba c))
    (has : d.blk.Has (d.m.entryLba c)) : fatNextClus c d = fatNextClus c d.invalidated := by
  have m : d.invalidated.m = d.m := rfl
  rw [fatNextClus, Prog.bind_eq_of_run (mount_run d), Prog.bind_eq_of_run (mount_run d.invalidated),
    m]
  cases type : d.m.type <;> exact readFatSec_then_miss miss has _ _

/-- The FAT12 case of `fat_next_clus` reads the two sectors of an entry again, so that a
stale first one does no harm. -/
theorem fatNextClus_again (places : d.m.Places c) (hasEntry : d.HasEntry c)
    (straddles : d.m.Straddles c) (hit : d.fatBufValid = true ∧ d.fatBufLba = d.m.entryLba c) :
    ∃ d', fatNextClus c d = some (d.m.next d.disk c, d') ∧ d'.blk = d.blk ∧ d'.m = d.m ∧
      d'.Coherent := by
  have narrow : d.m.Narrow := ⟨straddles.1, straddles.2.1⟩
  have has := hasEntry.1
  have hasNext := hasEntry.2 straddles
  have inTable := places.inTable
  have spill := places.spill straddles
  have succ := places.succ_eq straddles
  have last : d.m.rawOff c % 512 = 511 := places.entryIdx_eq.symm.trans straddles.2.2
  rw [succ] at hasNext
  rw [places.entryLba_eq] at succ has hit
  have first : readFatSec (d.m.rsvdSec + d.m.rawOff c / 512) d =
      some (true, d.noteRead (d.m.rsvdSec + d.m.rawOff c / 512)) := if_pos hit
  have other : ¬ ((d.noteRead (d.m.rsvdSec + d.m.rawOff c / 512)).fatBufValid ∧
      (d.noteRead (d.m.rsvdSec + d.m.rawOff c / 512)).fatBufLba =
        d.m.rsvdSec + (d.m.rawOff c / 512 + 1)) := by
    rintro ⟨-, same⟩
    have same := hit.2.symm.trans same
    omega
  have empty : (d.noteRead (d.m.rsvdSec + d.m.rawOff c / 512)).invalidated.Coherent := nofun
  obtain ⟨d₂, read₂, -, run₂⟩ := readFatSec_then_run empty hasNext noClus _
  obtain ⟨d₃, read₃, buf₃, run₃⟩ := readFatSec_then_run read₂.coherent (read₂.has has) noClus _
  have reads₃ := read₂.trans read₃
  obtain ⟨d₄, read₄, buf₄, run₄⟩ := readFatSec_then_run read₃.coherent (reads₃.has hasNext)
    noClus _
  have reads₄ := reads₃.trans read₄
  refine ⟨d₄, ?_, reads₄.blk, reads₄.m, reads₄.coherent⟩
  rw [fatNextClus_narrow narrow, next_narrow narrow, fatNextClus12, places.entryLba_eq,
    places.entryIdx_eq, if_pos last, succ, Prog.bind_eq_of_run first]
  refine (readFatSec_then_miss other hasNext noClus _).trans (run₂.trans (run₃.trans ?_))
  rw [Prog.bind_eq_of_run (wbuf_run d₃)]
  refine run₄.trans ?_
  rw [Prog.bind_eq_of_run (wbuf_run d₄), buf₃.bytes, buf₄.bytes, Prog.pure_run, read₂.disk,
    reads₃.disk]
  change some (chainEnd 0xFF8 (entry12 c ((d.disk _).get _) ((d.disk _).get 0)), d₄) = _
  rw [get_table_off inTable, get_table_spill spill last]

/-- A link that is not read from a stale buffer is the one on the device, and after it the
buffer is not stale. -/
theorem fatNextClus_fresh (places : d.m.Places c) (hasEntry : d.HasEntry c)
    (fresh : d.FreshFor c) :
    ∃ d', fatNextClus c d = some (d.m.next d.disk c, d') ∧ d'.blk = d.blk ∧ d'.m = d.m ∧
      d'.Coherent := by
  have settled {d : Driver} (places : d.m.Places c) (hasEntry : d.HasEntry c)
      (coherent : d.Coherent) : ∃ d', fatNextClus c d = some (d.m.next d.disk c, d') ∧
        d'.blk = d.blk ∧ d'.m = d.m ∧ d'.Coherent := by
    obtain ⟨d', run, -⟩ := fatNextClus_value coherent places hasEntry
    have kept := fatNextClus_keeps (readFatSec_scanned d) c d (Scanned.refl coherent) _ d' run
    exact ⟨d', run, kept.blk, kept.m, kept.coherent⟩
  by_cases hit : d.fatBufValid = true ∧ d.fatBufLba = d.m.entryLba c
  · by_cases straddles : d.m.Straddles c
    · exact fatNextClus_again places hasEntry straddles hit
    · exact settled places hasEntry fun valid => fresh valid hit.2 straddles
  · rw [fatNextClus_miss hit hasEntry.1]
    exact settled (d := d.invalidated) places hasEntry nofun

end Links

section Walks

variable {m : Mount} {disk : Nat → Sector} {clus lba : Nat}

/-- From this slot on, one that was never used comes before the end of the cluster. -/
inductive Mount.Shut (m : Mount) (disk : Nat → Sector) (clus : Nat) : Nat → Nat → Prop
  | here {lba idx e : Nat} (after : idx ≤ e) (inside : e < 16)
      (unused : (disk lba).get (e * 32) = 0x00) : Shut m disk clus lba idx
  | later {lba idx : Nat} (within : m.Within clus lba)
      (shut : Shut m disk clus (u32 (lba + 1)) 0) : Shut m disk clus lba idx

theorem Mount.Shut.passed {idx : Nat} (shut : m.Shut disk clus lba idx)
    (used : (disk lba).get (idx * 32) ≠ 0x00) : m.Shut disk clus lba (idx + 1) := by
  cases shut with
  | here after inside unused =>
      refine Mount.Shut.here (Nat.lt_of_le_of_ne after ?_) inside unused
      rintro rfl
      exact used unused
  | later within shut => exact Mount.Shut.later within shut

theorem Mount.Shut.within (shut : m.Shut disk clus lba 16) :
    m.Within clus lba ∧ m.Shut disk clus (u32 (lba + 1)) 0 := by
  cases shut with
  | here after inside unused => omega
  | later within shut => exact ⟨within, shut⟩

/-- The walk from here on reads no link from a stale buffer: it is through the fixed root
directory, or it ends in this cluster, or the link of this cluster is read as it is. -/
def Driver.Safe (d : Driver) (it : DirIter) : Prop :=
  it.curClus = 0 ∨ d.FreshFor it.curClus ∨ d.m.Shut d.disk it.curClus it.curLba it.entIdx

variable {d : Driver} {it : DirIter}

/-- The states from which a directory on a readable volume is read as it is. -/
structure Driver.Walking (d : Driver) (it : DirIter) (d' : Driver) : Prop where
  blk : d'.blk = d.blk
  m : d'.m = d.m
  safe : d'.Safe it

theorem Driver.Walking.still {d' : Driver} {it' : DirIter} (walking : d.Walking it d')
    (safe : d'.Safe it') : d.Walking it' d' := ⟨walking.blk, walking.m, safe⟩

theorem Readable.follows (readable : Readable d) : Follows d.blk d.m d.Walking where
  valid := readable.accepted.valid
  capacity_lt := by
    have small := readable.capacity_lt
    omega
  device := fun walking => ⟨walking.blk, walking.m⟩
  samePlace := by
    intro it it' d' walking clus lba idx
    refine walking.still ?_
    have safe := walking.safe
    unfold Driver.Safe at safe ⊢
    rwa [clus, lba, idx]
  passed := by
    intro it d' walking used
    refine walking.still ?_
    rw [← walking.blk] at used
    exact walking.safe.imp_right (Or.imp_right (Mount.Shut.passed · used))
  advance := by
    intro it d' walking last inRange
    have readable' := readable.of_device walking.blk walking.m
    rw [← walking.m] at inRange
    rw [← walking.blk, ← walking.m]
    by_cases fixed : it.curClus = 0
    · refine ⟨d', dirAdvance_still (Or.inl fixed), dirGo_rule walking fun clus lba next => ?_⟩
      exact walking.still (Or.inl (dirNext_fixed fixed next))
    have safe := walking.safe.resolve_left fixed
    by_cases within : d'.m.Within it.curClus it.curLba
    · refine ⟨d', dirAdvance_still (Or.inr within), dirGo_rule walking fun clus lba next => ?_⟩
      refine walking.still (Or.inr ?_)
      obtain ⟨rfl, rfl⟩ := Prod.mk.inj (Option.some.inj
        ((dirNext_within fixed within).symm.trans next))
      refine safe.imp_right fun shut => ?_
      rw [last] at shut
      exact shut.within.2
    · have fresh : d'.FreshFor it.curClus := by
        refine safe.resolve_right fun shut => ?_
        rw [last] at shut
        exact within shut.within.1
      obtain ⟨d₂, run, blk, m, coherent⟩ := fatNextClus_fresh (readable'.places inRange)
        (readable'.hasEntry inRange) fresh
      have safe (it : DirIter) : d.Walking it d₂ :=
        ⟨blk.trans walking.blk, m.trans walking.m, Or.inr (Or.inl (coherent.freshFor _))⟩
      exact ⟨d₂, dirAdvance_reads fixed within run, dirGo_rule (safe it) fun clus lba _ => safe _⟩

end Walks

section Directories

variable {d : Driver} {it : DirIter} {lbas : List Nat}

/-- The entries in these slots up to the first one never used: neither deleted, nor part of
a long name, nor a volume label. -/
def liveEntries (disk : Nat → Sector) (slots : List Slot) : List (Slot × Dirent) :=
  ((slots.takeWhile fun slot => (disk slot.lba).get slot.off ≠ 0x00).filter fun slot =>
    (disk slot.lba).get slot.off ≠ 0xE5 ∧
      ¬ hasAttr ((disk slot.lba).get (slot.off + 11)) attrVolid).map
    fun slot => (slot, Dirent.ofSector (disk slot.lba) slot.off)

/-- The listing has these entries. -/
theorem listing_entries (disk : Nat → Sector) (lfn : LfnBuf) (slots : List Slot) :
    (listing disk lfn slots).map (fun entry => (entry.1, entry.2.de)) =
      liveEntries disk slots := by
  induction slots generalizing lfn with
  | nil => rfl
  | cons slot rest ih =>
      have label : hasAttr attrLfn attrVolid = true := by decide
      rw [listing, liveEntries]
      by_cases unused : (disk slot.lba).get slot.off = 0x00
      · simp [unused]
      by_cases deleted : (disk slot.lba).get slot.off = 0xE5
      · simp [deleted, ih, liveEntries]
      by_cases isLfn : (disk slot.lba).get (slot.off + 11) = attrLfn
      · simp [unused, deleted, isLfn, label, ih, liveEntries]
      by_cases isLabel : hasAttr ((disk slot.lba).get (slot.off + 11)) attrVolid = true
      · simp [unused, deleted, isLfn, isLabel, ih, liveEntries]
      · simp [unused, deleted, isLfn, isLabel, ih, liveEntries]

/-- A directory as it is opened, and its sectors: the fixed root directory, or a chain of
clusters of any length. -/
inductive Driver.Directory (d : Driver) : DirIter → List Nat → Prop
  | root (narrow : d.m.type ≠ .fat32) (entries : 0 < d.m.rootEntCount)
      (whole : d.m.rootEntCount % 16 = 0) : Directory d d.m.diropenRoot d.m.rootLbas
  | chain {c : Nat} {rest : List Nat} (chain : d.m.Chain d.disk (c :: rest)) :
      Directory d (d.m.diropenClus c) ((c :: rest).flatMap d.m.clusterLbas)

/-- What a call of `fat_dirnext` shows: an entry and its location, or a code. -/
def report (result : DirResult × DirIter) : Except Int (Slot × Dirent) :=
  match result.1 with
  | .ok found => .ok (result.2.slot, found.de)
  | .error code => .error code

/-- However often `fat_dirnext` is called from here on, it shows the live entries in order,
each once and with its location, and then reports the end. -/
def Driver.Enumerates (d : Driver) (it : DirIter) (lbas : List Nat) : Prop :=
  ∀ n rounds, 17 * lbas.length ≤ rounds → ∃ results d',
    calls (fatDirnext rounds) n it d = some (results, d') ∧
      results.map report = drained (.error 1) ((liveEntries d.disk (dirSlots lbas)).map .ok) n

theorem Driver.Directory.standing (directory : d.Directory it lbas) (readable : Readable d) :
    ∃ rest, Standing d it rest ∧ it.left rest = dirSlots lbas ∧
      it.work rest < 17 * lbas.length := by
  have lays := readable.lays
  cases directory with
  | root narrow entries whole =>
      have root : d.m.diropenRoot = { DirIter.fresh with curLba := d.m.firstRootSec } :=
        if_neg narrow
      have positive := readable.fatSec_pos
      have starts := readable.starts
      have fits := lays.dataFits
      obtain ⟨count, sectors⟩ : ∃ count, d.m.rootEntCount * 32 / 512 = count + 1 :=
        ⟨d.m.rootEntCount * 32 / 512 - 1, by omega⟩
      rw [root]
      refine standing_opened ⟨rfl, rfl⟩ ?_
        (behind_root (by omega) sectors (by omega) lays.capacity_lt)
      have inside : d.m.firstRootSec + d.m.rootEntCount * 32 / 512 ≤ d.blk.capacity := by omega
      rw [rootLbas_row inside lays.capacity_lt, sectors, List.range'_succ]
  | @chain c rest chain =>
      obtain ⟨sectors, same, behind⟩ := lays.behind_chain chain
      have start : d.m.clusToLba c = d.m.dataLba c 0 :=
        lays.clusToLba_eq (chain.isCluster 0 (Nat.succ_pos _))
      rw [← start] at same behind
      exact standing_opened ⟨rfl, rfl⟩ same behind

theorem report_of_delivers {d' : Driver} {work : Nat} {slot : Slot} {found : Found}
    {entries : List (Slot × Found)} {result : DirResult × DirIter}
    (delivers : Delivers d' work ((slot, found) :: entries) result) :
    report result = .ok (slot, found.de) := by
  obtain ⟨ok, place, -⟩ := delivers
  rw [report, ok, ← place]

/-- What a cursor over a directory has left. -/
def Driver.Left (d : Driver) (rounds : Nat) (entries : List (Except Int (Slot × Dirent)))
    (it : DirIter) (d' : Driver) : Prop :=
  d.Walking it d' ∧ ∃ rest, Standing d' it rest ∧ it.work rest < rounds ∧
    ((listing d.disk LfnBuf.clear (it.left rest)).map fun entry =>
      (.ok (entry.1, entry.2.de) : Except Int (Slot × Dirent))) = entries

/-- `fat_dirnext` is a cursor over the listing. -/
theorem fatDirnext_drains (readable : Readable d) (rounds : Nat) :
    Drains (fatDirnext rounds) report (.error 1) (d.Left rounds) where
  more := by
    rintro value values it d₁ ⟨walking, rest, standing, enough, listed⟩
    obtain ⟨result, d₂, run, walking', delivers⟩ :=
      fatDirnext_follows readable.follows walking standing enough
    have disk : d₁.disk = d.disk := congrArg BlkDev.sec walking.blk
    have disk' : d₂.disk = d.disk := congrArg BlkDev.sec walking'.blk
    rw [disk] at delivers
    obtain ⟨⟨slot, found⟩, entries, same, rfl, rfl⟩ := List.map_eq_cons_iff.mp listed
    rw [same] at delivers
    have seen := report_of_delivers delivers
    obtain ⟨-, -, rest', standing', left, less⟩ := delivers
    rw [disk'] at left
    exact ⟨result, d₂, run, seen, walking', rest', standing', less.trans enough, by rw [left]⟩
  done := by
    rintro it d₁ ⟨walking, rest, standing, enough, listed⟩
    obtain ⟨result, d₂, run, walking', delivers⟩ :=
      fatDirnext_follows readable.follows walking standing enough
    have disk : d₁.disk = d.disk := congrArg BlkDev.sec walking.blk
    have disk' : d₂.disk = d.disk := congrArg BlkDev.sec walking'.blk
    rw [disk, List.map_eq_nil_iff.mp listed] at delivers
    obtain ⟨code, rest', standing', left, less⟩ := delivers
    rw [disk'] at left
    refine ⟨result, d₂, run, ?_, walking', rest', standing', less.trans_lt enough, ?_⟩
    · rw [report, code]
    · rw [left]
      rfl

/-- A directory is enumerated when its walk reads no link from a stale buffer. -/
theorem enumerates_of_safe (readable : Readable d) (directory : d.Directory it lbas)
    (safe : d.Safe it) : d.Enumerates it lbas := by
  intro n rounds enough
  obtain ⟨rest, standing, left, less⟩ := directory.standing readable
  refine (fatDirnext_drains readable rounds).calls ?_ n
  refine ⟨⟨rfl, rfl, safe⟩, rest, standing, by omega, ?_⟩
  rw [left, ← listing_entries d.disk LfnBuf.clear, List.map_map]
  rfl

end Directories

section SplitDirectory

/-- So many entries of files with one-letter names. -/
def letterEntries (count : Nat) : Sector :=
  (List.range count).foldl (fun s e =>
    (s.blit (e * 32) (UInt8.ofNat (65 + e) :: List.replicate 10 32)).blit (e * 32 + 11) [0x20])
    Buffer.zero

/-- The small volume with a directory in clusters 5 and 6: 16 entries and one more. -/
def splitVolume : Nat → Sector
  | 1 | 2 => Buffer.zero.blit 0
      [0xF8, 0xFF, 0xFF, 0x03, 0x40, 0x00, 0xFF, 0x6F, 0x00, 0xFF, 0x0F, 0x00]
  | 7 => letterEntries 16
  | 8 => letterEntries 1
  | lba => smallVolume lba

theorem splitVolume_mounts :
    ∃ d, fatMount (Driver.initial splitVolume 40) = some (0, d) ∧ smallMount = d.m := by
  have run : (fatMount (Driver.initial splitVolume 40)).map (fun r => (r.1, r.2.m)) =
      some (0, smallMount) := by
    decide +kernel
  obtain ⟨⟨code, d⟩, run, same⟩ := Option.map_eq_some_iff.mp run
  obtain ⟨rfl, mounted⟩ := Prod.mk.inj same
  exact ⟨d, run, mounted.symm⟩

theorem smallMount_readable {d : Driver} (m : d.m = smallMount) (capacity : d.blk.capacity = 40) :
    Readable d where
  mounted := by
    obtain ⟨d', run, same⟩ := splitVolume_mounts
    exact ⟨_, d', run, m.trans same⟩
  covers := by
    rw [m]
    decide
  inMemory := by
    rw [BlkDev.InMemory, capacity]
    decide
  onDevice := by
    rw [m, capacity]
    decide

theorem smallMount_chain {disk : Nat → Sector} (first : smallMount.link disk 5 = 6)
    (last : smallMount.link disk 6 = 0xFFF) : smallMount.Chain disk [5, 6] where
  isCluster := by
    intro k inside
    match k, inside with
    | 0, _ => exact ⟨by decide, by decide⟩
    | 1, _ => exact ⟨by decide, by decide⟩
  linked := by
    intro k inside
    match k, inside with
    | 0, _ => exact first
  last := by
    intro k end'
    match k, end' with
    | 1, _ => exact (by decide : smallMount.mark ≤ 0xFFF).trans_eq last.symm

/-- The driver with the volume mounted. -/
def splitDriver : Driver := { Driver.initial splitVolume 40 with m := smallMount }

theorem enumerates_of_safe_split :
    splitDriver.Enumerates (smallMount.diropenClus 5) ([5, 6].flatMap smallMount.clusterLbas) :=
  enumerates_of_safe (smallMount_readable rfl rfl)
    (Driver.Directory.chain (smallMount_chain (by decide +kernel) (by decide +kernel)))
    (Or.inr (Or.inl nofun))

/-- After a write over the first cluster boundary of the file `A` the buffer holds file data
under the number of the table sector: the link behind the 16 entries is read as 0, and the
last entry is never shown. -/
theorem stale_link_ends_directory :
    ∃ d, openAndWrite (List.replicate 600 0) (Driver.initial splitVolume 40) = some (600, d) ∧
      Readable d ∧ d.Directory (d.m.diropenClus 5) ([5, 6].flatMap d.m.clusterLbas) ∧
      ¬ d.Enumerates (d.m.diropenClus 5) ([5, 6].flatMap d.m.clusterLbas) := by
  have run : (openAndWrite (List.replicate 600 0) (Driver.initial splitVolume 40)).map (fun r =>
      ((r.1, r.2.m, r.2.blk.capacity), smallMount.link r.2.disk 5, smallMount.link r.2.disk 6)) =
      some ((600, smallMount, 40), 6, 0xFFF) := by
    decide +kernel
  have listed : (openAndWrite (List.replicate 600 0) (Driver.initial splitVolume 40)).map (fun r =>
      ((liveEntries r.2.disk (dirSlots ([5, 6].flatMap smallMount.clusterLbas))).length,
        (calls (fatDirnext 34) 17 (smallMount.diropenClus 5) r.2).map fun results =>
          (results.1.map report).all Except.isOk)) = some (17, some false) := by
    decide +kernel
  obtain ⟨⟨code, d⟩, run, same⟩ := Option.map_eq_some_iff.mp run
  rw [run] at listed
  simp only [Prod.mk.injEq] at same
  obtain ⟨⟨rfl, m, capacity⟩, first, last⟩ := same
  obtain ⟨count, shown⟩ := Prod.mk.inj (Option.some.inj listed)
  dsimp only at count shown
  rw [← m] at count shown
  refine ⟨d, run, smallMount_readable m capacity, Driver.Directory.chain ?_, fun enumerates => ?_⟩
  · rw [m]
    exact smallMount_chain first last
  · obtain ⟨results, d', list, same⟩ := enumerates 17 34 (by rw [m]; decide)
    rw [list, Option.map_some, Option.some.injEq] at shown
    have all : (results.map report).all Except.isOk = true := by
      rw [same, drained, List.take_append_of_le_length (by rw [List.length_map, count])]
      refine List.all_eq_true.mpr fun entry mem => ?_
      obtain ⟨live, -, rfl⟩ := List.mem_map.mp (List.mem_of_mem_take mem)
      rfl
    rw [all] at shown
    exact Bool.noConfusion shown

end SplitDirectory

end Ncd15.Fat
