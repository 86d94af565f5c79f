import Ncd15.Fat.Table

/-!
# Directories

The iterator over a directory with the reassembly of long names, the comparison
of names, and the walk along a path.  Strings are lists of bytes without the
terminating NUL.
-/

namespace Ncd15.Fat

open Ncd15.Library

/-- The attributes the driver looks at. -/
def attrDir : UInt8 := 0x10
def attrVolid : UInt8 := 0x08
def attrLfn : UInt8 := 0x0F
def attrArchive : UInt8 := 0x20

def hasAttr (attr mask : UInt8) : Bool := attr &&& mask ≠ 0

/-- `fat_dirent_t`. -/
structure Dirent where
  name : List UInt8
  attr : UInt8
  ntres : UInt8
  ctimeTenth : UInt8
  ctime : Nat
  cdate : Nat
  adate : Nat
  firstClusHi : Nat
  wtime : Nat
  wdate : Nat
  firstClusLo : Nat
  fileSize : Nat

def Dirent.firstClus (de : Dirent) : Nat := de.firstClusHi * 2 ^ 16 + de.firstClusLo

def Dirent.isDir (de : Dirent) : Bool := hasAttr de.attr attrDir

/-- The entry at an offset of a directory sector. -/
def Dirent.ofSector (s : Sector) (off : Nat) : Dirent :=
  { name := s.slice off 11
    attr := s.get (off + 11)
    ntres := s.get (off + 12)
    ctimeTenth := s.get (off + 13)
    ctime := s.loadLe (off + 14) 2
    cdate := s.loadLe (off + 16) 2
    adate := s.loadLe (off + 18) 2
    firstClusHi := s.loadLe (off + 20) 2
    wtime := s.loadLe (off + 22) 2
    wdate := s.loadLe (off + 24) 2
    firstClusLo := s.loadLe (off + 26) 2
    fileSize := s.loadLe (off + 28) 4 }

/-- The reassembly buffer of a long name. -/
structure LfnBuf where
  chars : Buffer 256
  len : Nat

namespace LfnBuf

def clear : LfnBuf := { chars := Buffer.zero, len := 0 }

/-- The offsets of the 13 characters in an entry. -/
def offsets : List Nat := [1, 3, 5, 7, 9, 14, 16, 18, 20, 22, 24, 28, 30]

def narrow (s : Sector) (off : Nat) : List UInt8 :=
  ((offsets.map fun pos => s.loadLe (off + pos) 2).takeWhile
    fun ch => ch ≠ 0 ∧ ch ≠ 0xFFFF).map
    fun ch => if ch < 0x80 then UInt8.ofNat ch else 63

/-- `lfn_collect_entry`. -/
def collect (l : LfnBuf) (s : Sector) (off : Nat) : LfnBuf :=
  let seq := (s.get off).toNat
  if seq % 32 = 0 then l
  else
    let base := (seq % 32 - 1) * 13
    let chars := narrow s off
    let stop := base + if seq / 64 % 2 = 1 then chars.length else 13
    { chars := l.chars.blit base (chars.take (255 - base)), len := max l.len stop }

/-- The string `fat_dirnext` reports. -/
def string (l : LfnBuf) : List UInt8 :=
  if 0 < l.len ∧ l.len < 256 then (l.chars.slice 0 l.len).takeWhile (· ≠ 0) else []

end LfnBuf

/-- `fat_dir_iter_t`. -/
structure DirIter where
  curClus : Nat
  curLba : Nat
  entIdx : Nat
  buf : Sector
  bufLbaValid : Bool
  bufLba : Nat
  lfn : LfnBuf

/-- An iterator as the callers leave it on the stack before it is opened; the open
functions set every field that is read but the sector buffer. -/
def DirIter.fresh : DirIter :=
  { curClus := 0, curLba := 0, entIdx := 0, buf := Buffer.zero, bufLbaValid := false,
    bufLba := 0, lfn := LfnBuf.clear }

/-- `fat_diropen_clus` on a mounted volume. -/
def Mount.diropenClus (m : Mount) (clus : Nat) : DirIter :=
  { DirIter.fresh with curClus := clus, curLba := m.clusToLba clus }

/-- `fat_diropen_root` on a mounted volume. -/
def Mount.diropenRoot (m : Mount) : DirIter :=
  if m.type = .fat32 then m.diropenClus m.rootClus
  else { DirIter.fresh with curLba := m.firstRootSec }

section Iteration

/-- `dir_load_sector`; `none` stands for -1. -/
def dirLoadSector (it : DirIter) : DriverM (Option DirIter) := fun d =>
  if it.bufLbaValid ∧ it.bufLba = it.curLba then some (some it, d)
  else if d.blk.Has it.curLba then
    some (some { it with buf := d.disk it.curLba, bufLba := it.curLba, bufLbaValid := true }, d)
  else some (none, d)

/-- An entry with the long name in front of it. -/
structure Found where
  de : Dirent
  lfn : List UInt8

/-- A result of `fat_dirnext`: an entry for 0, else the code. -/
abbrev DirResult := Except Int Found

/-- The iterator at the start of a sector. -/
def DirIter.atSector (it : DirIter) (clus lba : Nat) : DirIter :=
  { it with curClus := clus, curLba := lba, entIdx := 0, bufLbaValid := false }

/-- The step of `fat_dirnext` to the next sector of the directory. -/
def dirAdvance (it : DirIter) : DriverM (DirIter ⊕ (DirResult × DirIter)) := do
  let m ← mount
  if it.curClus = 0 then
    if m.rootEntCount * 32 / 512 ≤ u32 (u32 (it.curLba + 2 ^ 32 - m.firstRootSec) + 1) then
      pure (.inr (.error 1, it))
    else pure (.inl (it.atSector 0 (u32 (it.curLba + 1))))
  else if u32 (u32 (it.curLba + 2 ^ 32 - m.clusToLba it.curClus) + 1) < m.secPerClus then
    pure (.inl (it.atSector it.curClus (u32 (it.curLba + 1))))
  else
    let nxt ← fatNextClus it.curClus
    if nxt = noClus then pure (.inr (.error 1, it))
    else pure (.inl (it.atSector nxt (m.clusToLba nxt)))

/-- What `fat_dirnext` does with the entry in front of it. -/
def DirIter.entry (it : DirIter) : DirIter ⊕ (DirResult × DirIter) :=
  let off := it.entIdx * 32
  let first := it.buf.get off
  let attr := it.buf.get (off + 11)
  let passed := { it with entIdx := it.entIdx + 1 }
  if first = 0x00 then .inr (.error 1, it)
  else if first = 0xE5 then .inl { passed with lfn := LfnBuf.clear }
  else if attr = attrLfn then .inl { passed with lfn := it.lfn.collect it.buf off }
  else if hasAttr attr attrVolid then .inl { passed with lfn := { it.lfn with len := 0 } }
  else
    .inr (.ok { de := Dirent.ofSector it.buf off, lfn := it.lfn.string },
      { passed with lfn := LfnBuf.clear })

def dirRound (it : DirIter) : DriverM (DirIter ⊕ (DirResult × DirIter)) := do
  if it.curLba = 0 then pure (.inr (.error (-1), it))
  else
    match ← dirLoadSector it with
    | none => pure (.inr (.error (-1), it))
    | some it =>
        if 16 ≤ it.entIdx then dirAdvance it
        else pure it.entry

def fatDirnext (rounds : Nat) (it : DirIter) : DriverM (DirResult × DirIter) := do
  if !(← mount).valid then pure (.error (-1), it)
  else Prog.loop dirRound rounds { it with lfn := LfnBuf.clear }

/-- One round of a loop that calls `fat_dirnext` until an entry is accepted. -/
def searchRound (rounds : Nat) (accept : Found → Bool) (it : DirIter) :
    DriverM (DirIter ⊕ (Option Found × DirIter)) := do
  match ← fatDirnext rounds it with
  | (.error _, it) => pure (.inr (none, it))
  | (.ok found, it) => pure (if accept found then .inr (some found, it) else .inl it)

/-- The loops that call `fat_dirnext` until an entry is accepted. -/
def searchDir (rounds : Nat) (accept : Found → Bool) (it : DirIter) :
    DriverM (Option Found × DirIter) :=
  Prog.loop (searchRound rounds accept) rounds it

end Iteration

section Names

/-- Case folding as the comparisons and `build_raw_name` do it. -/
def upper (c : UInt8) : UInt8 := if 97 ≤ c ∧ c ≤ 122 then c - 32 else c

/-- The `BASE.EXT` string of a raw name. -/
def rawToString (raw : List UInt8) : List UInt8 :=
  let base := (raw.take 8).takeWhile (· ≠ 32)
  let ext := ((raw.drop 8).take 3).takeWhile (· ≠ 32)
  if ext = [] then base else base ++ 46 :: ext

def nameMatch83 (raw want : List UInt8) : Bool :=
  (rawToString raw).map upper = want.map upper

def strieq (a b : List UInt8) : Bool := a.map upper = b.map upper

/-- The test of the path walks: the short or the long name is the component. -/
def Found.matches (f : Found) (comp : List UInt8) : Bool :=
  nameMatch83 f.de.name comp || (f.lfn ≠ [] && strieq f.lfn comp)

def findEntryInDir (rounds : Nat) (it : DirIter) (comp : List UInt8) :
    DriverM (Option Found × DirIter) :=
  searchDir rounds (·.matches comp) it

def fatMatch83 (raw pattern : List UInt8) : Bool :=
  (raw.zip pattern).all fun pair => pair.2 = 63 || pair.2 = pair.1

def searchNextRound (rounds : Nat) (pattern : List UInt8) (it : DirIter) :
    DriverM (DirIter ⊕ (DirResult × DirIter)) := do
  match ← fatDirnext rounds it with
  | (.error code, it) => pure (.inr (.error code, it))
  | (.ok found, it) =>
      if hasAttr found.de.attr attrVolid then pure (.inl it)
      else if fatMatch83 found.de.name pattern then pure (.inr (.ok found, it))
      else pure (.inl it)

def fatSearchNext (rounds : Nat) (it : DirIter) (pattern : List UInt8) :
    DriverM (DirResult × DirIter) :=
  Prog.loop (searchNextRound rounds pattern) rounds it

def fatSearchFirst (rounds : Nat) (pattern : List UInt8) : DriverM (DirResult × DirIter) := do
  let m ← mount
  if !m.valid then pure (.error (-1), DirIter.fresh)
  else fatSearchNext rounds m.diropenRoot pattern

/-- The characters of `build_raw_name` before the dot, at most eight. -/
def baseChars (name : List UInt8) : List UInt8 := (name.take 8).takeWhile (· ≠ 46)

/-- Blanks up to a width. -/
def padTo (width : Nat) (chars : List UInt8) : List UInt8 :=
  chars ++ List.replicate (width - chars.length) 32

/-- The characters of `build_raw_name` behind the base and a dot, at most three. -/
def extChars (name : List UInt8) : List UInt8 :=
  match name.drop (baseChars name).length with
  | 46 :: rest => rest.take 3
  | rest => rest.take 3

def buildRawName (name : List UInt8) : List UInt8 :=
  padTo 8 ((baseChars name).map upper) ++ padTo 3 ((extChars name).map upper)

end Names

section Paths

def stripSlash : List UInt8 → List UInt8
  | 47 :: rest => rest
  | path => path

/-- One component of a path, at most 15 characters, and the rest of the path. -/
def takeComponent (path : List UInt8) : List UInt8 × List UInt8 :=
  let comp := (path.take 15).takeWhile (· ≠ 47)
  (comp, path.drop comp.length)

/-- The components the path walks take one after the other, each with whether a
slash follows it. -/
def splitPath : Nat → List UInt8 → List (List UInt8 × Bool)
  | 0, _ => []
  | _ + 1, [] => []
  | bound + 1, path =>
      let comp := takeComponent path
      (comp.1, comp.2.head? = some 47) :: splitPath bound (stripSlash comp.2)

/-- The components of a path; each takes at least one character. -/
def components (path : List UInt8) : List (List UInt8 × Bool) :=
  splitPath path.length (stripSlash path)

/-- The walk of `fat_diropen_path` through the remaining components. -/
def walkDirs (rounds : Nat) : List (List UInt8 × Bool) → DirIter →
    DriverM (Except Int DirIter)
  | [], it => pure (.ok it)
  | (comp, _) :: rest, it => do
      match ← findEntryInDir rounds it comp with
      | (none, _) => pure (.error (-2))
      | (some found, _) =>
          if !found.de.isDir then pure (.error (-3))
          else do walkDirs rounds rest ((← mount).diropenClus found.de.firstClus)

def fatDiropenPath (rounds : Nat) (path : List UInt8) : DriverM (Except Int DirIter) := do
  let m ← mount
  if !m.valid then pure (.error (-1))
  else walkDirs rounds (components path) m.diropenRoot

end Paths

section Slots

/-- The location of a directory entry: its sector and its offset there. -/
structure Slot where
  lba : Nat
  off : Nat
  deriving DecidableEq, Repr

/-- The slot the iterator has just passed. -/
def DirIter.slot (it : DirIter) : Slot :=
  { lba := it.curLba, off := (it.entIdx - 1) * 32 }

/-- The search of `fat_find_dirent` and `find_dirent_at` for a raw name. -/
def findRaw (rounds : Nat) (it : DirIter) (raw : List UInt8) : DriverM (Option Slot) := do
  let found ← searchDir rounds
    (fun f => !hasAttr f.de.attr attrVolid && f.de.name = raw) it
  pure (found.1.map fun _ => found.2.slot)

def fatFindDirent (rounds : Nat) (raw : List UInt8) : DriverM (Option Slot) := do
  findRaw rounds (← mount).diropenRoot raw

def findDirentAt (rounds : Nat) (parent : Nat) (raw : List UInt8) :
    DriverM (Option Slot) := do
  let m ← mount
  findRaw rounds (if parent = 0 then m.diropenRoot else m.diropenClus parent) raw

def freeOffset (s : Sector) : Option Nat :=
  ((List.range 16).find? fun e => s.get (e * 32) = 0x00 ∨ s.get (e * 32) = 0xE5).map (· * 32)

/-- The scan of one sector for a free entry; a failed read is an error. -/
def scanSector (lba : Nat) : DriverM (Option (Except Unit Slot)) := do
  if !(← loadWbuf lba) then pure (some (.error ()))
  else do pure ((freeOffset (← wbuf)).map fun off => .ok { lba, off })

def scanFree (lbas : List Nat) : DriverM (Option (Except Unit Slot)) :=
  Prog.firstOf scanSector lbas

def Mount.rootLbas (m : Mount) : List Nat :=
  (List.range (m.rootEntCount * 32 / 512)).map fun s => u32 (m.firstRootSec + s)

def Mount.clusterLbas (m : Mount) (clus : Nat) : List Nat :=
  (List.range m.secPerClus).map fun s => u32 (m.clusToLba clus + s)

/-- A cluster of zeros: results of the writes are not looked at. -/
def zeroCluster (clus : Nat) : DriverM Unit := do
  let m ← mount
  editWbuf fun _ => Buffer.zero
  (m.clusterLbas clus).forM fun lba => do let _ ← writeWbuf lba

/-- The extension of a directory whose chain ends at `clus`: the new cluster, or
`none` for an error. -/
def extendDir (clus : Nat) : DriverM (Option Nat) := do
  let nc ← fatAllocCluster
  if nc = 0 then pure none
  else if !(← fatSetEntry clus nc) then pure none
  else do
    zeroCluster nc
    pure (some nc)

/-- One cluster of a directory in the search for a free entry. -/
def emptyRound (m : Mount) (c : Nat) : DriverM (Nat ⊕ Option Slot) := do
  if c < 2 then pure (.inr none)
  else
    match ← scanFree (m.clusterLbas c) with
    | some (.ok slot) => pure (.inr (some slot))
    | some (.error ()) => pure (.inr none)
    | none =>
        let nxt ← fatNextClus c
        if nxt = noClus then
          match ← extendDir c with
          | none => pure (.inr none)
          | some nc => pure (.inl nc)
        else pure (.inl nxt)

def findEmptyInChain (rounds : Nat) (first : Nat) : DriverM (Option Slot) := do
  Prog.loop (emptyRound (← mount)) rounds first

def findEmptyInRoot : DriverM (Option Slot) := do
  match ← scanFree (← mount).rootLbas with
  | some (.ok slot) => pure (some slot)
  | _ => pure none

/-- `fat_find_empty_dirent`; `none` stands for a nonzero result. -/
def fatFindEmptyDirent (rounds : Nat) : DriverM (Option Slot) := do
  invalidate
  let m ← mount
  if m.type ≠ .fat32 then findEmptyInRoot else findEmptyInChain rounds m.rootClus

/-- `find_empty_dirent_at`; `none` stands for a nonzero result. -/
def findEmptyDirentAt (rounds : Nat) (parent : Nat) : DriverM (Option Slot) := do
  invalidate
  let m ← mount
  if parent = 0 ∧ m.type ≠ .fat32 then findEmptyInRoot
  else findEmptyInChain rounds (if parent ≠ 0 then parent else m.rootClus)

end Slots

end Ncd15.Fat
