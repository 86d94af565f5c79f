import Ncd15.Fat.Directory
import Mathlib.Data.List.DropRight

/-!
# Files

The public operations of `fat.c` on files and directories.  A handle belongs to
the caller: the operations take it and return it.
-/

namespace Ncd15.Fat

open Ncd15.Library

/-- `fat_file_t`. -/
structure FatFile where
  inUse : Bool
  firstClus : Nat
  curClus : Nat
  curPos : Nat
  fileSize : Nat
  slot : Slot
  attr : UInt8

def Mount.clusSize (m : Mount) : Nat := u32 (m.secPerClus * 512)

section Read

/-- The handle `fat_fopen` fills in; the location of the entry is not among the
fields it sets. -/
def FatFile.opened (fp : FatFile) (de : Dirent) : FatFile :=
  { fp with
    inUse := true
    firstClus := de.firstClus
    curClus := de.firstClus
    curPos := 0
    fileSize := de.fileSize
    attr := de.attr }

/-- The walk of `fat_fopen` through the remaining components. -/
def walkFile (rounds : Nat) (fp : FatFile) : List (List UInt8 × Bool) → DirIter →
    DriverM (Int × FatFile)
  | [], _ => pure (-2, fp)
  | (comp, more) :: rest, it => do
      match ← findEntryInDir rounds it comp with
      | (none, _) => pure (-2, fp)
      | (some found, _) =>
          if more then
            if !found.de.isDir then pure (-3, fp)
            else do walkFile rounds fp rest ((← mount).diropenClus found.de.firstClus)
          else if found.de.isDir then pure (-4, fp)
          else pure (0, fp.opened found.de)

def fatFopen (rounds : Nat) (path : List UInt8) (fp : FatFile) : DriverM (Int × FatFile) := do
  let m ← mount
  if !m.valid then pure (-1, fp)
  else walkFile rounds fp (components path) m.diropenRoot

structure ReadLoop where
  fp : FatFile
  bytes : List UInt8

/-- The byte position within the cluster: the code masks with `clus_size - 1`. -/
def inCluster (clusSize pos : Nat) : Nat := pos &&& u32 (clusSize + (2 ^ 32 - 1))

def freadRound (m : Mount) (max : Nat) (s : ReadLoop) :
    DriverM (ReadLoop ⊕ (Int × ReadLoop)) := do
  let produced := s.bytes.length
  if max ≤ produced then pure (.inr (produced, s))
  else
    let inClusPos := inCluster m.clusSize s.fp.curPos
    let inSecPos := inClusPos % 512
    let lba := u32 (m.clusToLba s.fp.curClus + inClusPos / 512)
    invalidate
    match ← readSec lba with
    | none => pure (.inr (-1, s))
    | some sector =>
        editWbuf fun _ => sector
        let chunk := min (512 - inSecPos) (max - produced)
        let bytes := s.bytes ++ sector.slice inSecPos chunk
        let fp := { s.fp with curPos := u32 (s.fp.curPos + chunk) }
        if inCluster m.clusSize fp.curPos = 0 ∧ bytes.length < max then
          let nxt ← fatNextClus fp.curClus
          if nxt = noClus then pure (.inr (bytes.length, { fp, bytes }))
          else pure (.inl { fp := { fp with curClus := nxt }, bytes })
        else pure (.inl { fp, bytes })

/-- `fat_fread`: the result, the bytes stored in the buffer, and the handle. -/
def fatFread (rounds : Nat) (fp : FatFile) (max : Nat) :
    DriverM (Int × List UInt8 × FatFile) := do
  let m ← mount
  if !fp.inUse then pure (-1, [], fp)
  else if fp.fileSize ≤ fp.curPos then pure (0, [], fp)
  else
    let (code, s) ← Prog.loop (freadRound m (min max (fp.fileSize - fp.curPos))) rounds
      { fp, bytes := [] }
    pure (code, s.bytes, s.fp)

def fatFclose (fp : FatFile) : FatFile := { fp with inUse := false }

def fatFsize (fp : FatFile) : Nat := if fp.inUse then fp.fileSize else 0

/-- The chain walk of `fat_fseek`. -/
def skipClusters : Nat → FatFile → DriverM (Int × FatFile)
  | 0, fp => pure (0, fp)
  | skip + 1, fp => do
      let nxt ← fatNextClus fp.curClus
      if nxt = noClus then pure (-1, fp)
      else skipClusters skip { fp with curClus := nxt }

def fatFseek (fp : FatFile) (bytePos : Nat) : DriverM (Int × FatFile) := do
  let m ← mount
  if !fp.inUse then pure (-1, fp)
  else
    let pos := min bytePos fp.fileSize
    skipClusters (pos / m.clusSize) { fp with curPos := pos, curClus := fp.firstClus }

end Read

section Entries

/-- The edits of the first-cluster fields of an entry. -/
def editFirstClus (off clus : Nat) (s : Sector) : Sector :=
  (s.blit (off + 26) (Buffer.leBytes 2 clus)).blit (off + 20)
    (Buffer.leBytes 2 (clus / 2 ^ 16))

def firstClusAt (s : Sector) (off : Nat) : Nat :=
  s.loadLe (off + 20) 2 * 2 ^ 16 + s.loadLe (off + 26) 2

def editSize (off size : Nat) (s : Sector) : Sector :=
  s.blit (off + 28) (Buffer.leBytes 4 size)

/-- A new entry: zeros, the name and the attributes. -/
def editNew (off : Nat) (raw : List UInt8) (attr : UInt8) (s : Sector) : Sector :=
  ((s.blit off (List.replicate 32 0)).blit off raw).blit (off + 11) [attr]

/-- An existing entry truncated to an empty file. -/
def editTruncated (off : Nat) (s : Sector) : Sector :=
  (editFirstClus off 0 (editSize off 0 s)).blit (off + 11) [attrArchive]

def editDeleted (off : Nat) (s : Sector) : Sector := s.blit off [0xE5]

/-- `blk_read`, an edit of the entry's sector, and `write_sec`. -/
def modifyEntry (slot : Slot) (edit : Nat → Sector → Sector) : DriverM Bool := do
  if !(← loadWbuf slot.lba) then pure false
  else updateSec slot.lba (edit slot.off)

/-- The first cluster in an entry: `blk_read` and the two fields. -/
def loadFirstClus (slot : Slot) : DriverM (Option Nat) := do
  if !(← loadWbuf slot.lba) then pure none
  else do pure (some (firstClusAt (← wbuf) slot.off))

/-- `if (first_clus >= 2) fat_free_chain(first_clus)`, the result not looked at. -/
def freeFile (rounds first : Nat) : DriverM Unit := do
  if 2 ≤ first then
    let _ ← fatFreeChain rounds first
  else pure ()

end Entries

section Write

/-- The handle of a created file. -/
def FatFile.created (slot : Slot) : FatFile :=
  { inUse := true, firstClus := 0, curClus := 0, curPos := 0, fileSize := 0, slot,
    attr := attrArchive }

/-- `fat_fcreate` when the name exists. -/
def truncateFile (rounds : Nat) (slot : Slot) : DriverM Bool := do
  match ← loadFirstClus slot with
  | none => pure false
  | some first => do
      freeFile rounds first
      modifyEntry slot editTruncated

def fatFcreate (rounds : Nat) (path : List UInt8) (fp : FatFile) :
    DriverM (Int × FatFile) := do
  if !(← mount).valid then pure (-1, fp)
  else
    invalidate
    let raw := buildRawName (stripSlash path)
    match ← fatFindDirent rounds raw with
    | some slot =>
        if !(← truncateFile rounds slot) then pure (-1, fp) else pure (0, .created slot)
    | none =>
        match ← fatFindEmptyDirent rounds with
        | none => pure (-1, fp)
        | some slot =>
            if !(← modifyEntry slot fun off => editNew off raw attrArchive) then pure (-1, fp)
            else pure (0, .created slot)

/-- The state of the loop of `fat_fwrite`: the handle and the bytes still to be
written. -/
structure WriteLoop where
  fp : FatFile
  rest : List UInt8

/-- The first cluster of a file that has none: `.error` is the early return. -/
def attachFirst (fp : FatFile) (written : Int) : DriverM (Except (Int × FatFile) FatFile) := do
  if fp.firstClus = 0 then
    let nc ← fatAllocCluster
    if nc = 0 then pure (.error (written, fp))
    else
      let fp := { fp with firstClus := nc, curClus := nc }
      if !(← modifyEntry fp.slot fun off => editFirstClus off nc) then
        pure (.error (-1, fp))
      else pure (.ok fp)
  else pure (.ok fp)

/-- The move to the next cluster after a boundary, which is linked if the chain
ends. -/
def nextForWrite (fp : FatFile) (written : Int) : DriverM (Except (Int × FatFile) FatFile) := do
  let nxt ← fatNextClus fp.curClus
  if nxt = noClus then
    let nc ← fatAllocCluster
    if nc = 0 then pure (.error (written, fp))
    else if !(← fatSetEntry fp.curClus nc) then pure (.error (-1, fp))
    else pure (.ok { fp with curClus := nc })
  else pure (.ok { fp with curClus := nxt })

def fwriteRound (m : Mount) (total : Nat) (s : WriteLoop) :
    DriverM (WriteLoop ⊕ (Int × FatFile)) := do
  let written := total - s.rest.length
  if s.rest = [] then pure (.inr (written, s.fp))
  else
    match ← attachFirst s.fp written with
    | .error result => pure (.inr result)
    | .ok fp =>
        let inClusPos := inCluster m.clusSize fp.curPos
        let inSecPos := inClusPos % 512
        let lba := u32 (m.clusToLba fp.curClus + inClusPos / 512)
        if !(← loadWbuf lba) then pure (.inr (-1, fp))
        else
          let chunk := s.rest.take (512 - inSecPos)
          if !(← updateSec lba (·.blit inSecPos chunk)) then pure (.inr (-1, fp))
          else
            let pos := u32 (fp.curPos + chunk.length)
            let rest := s.rest.drop chunk.length
            let fp := { fp with curPos := pos, fileSize := max fp.fileSize pos }
            if inCluster m.clusSize pos = 0 ∧ rest ≠ [] then
              match ← nextForWrite fp (total - rest.length : Nat) with
              | .error result => pure (.inr result)
              | .ok fp => pure (.inl { fp, rest })
            else pure (.inl { fp, rest })

def fatFwrite (rounds : Nat) (fp : FatFile) (bytes : List UInt8) :
    DriverM (Int × FatFile) := do
  let m ← mount
  if !fp.inUse ∨ !m.valid then pure (-1, fp)
  else
    invalidate
    Prog.loop (fwriteRound m bytes.length) rounds { fp, rest := bytes }

def FatFile.editFlush (fp : FatFile) (off : Nat) (s : Sector) : Sector :=
  if fp.firstClus ≠ 0 then editFirstClus off fp.firstClus (editSize off fp.fileSize s)
  else editSize off fp.fileSize s

def fatFflush (fp : FatFile) : DriverM Int := do
  if !fp.inUse ∨ !(← mount).valid then pure (-1)
  else
    invalidate
    pure (if ← modifyEntry fp.slot fp.editFlush then 0 else -1)

def fatFunlink (rounds : Nat) (path : List UInt8) : DriverM Int := do
  if !(← mount).valid then pure (-1)
  else
    invalidate
    match ← fatFindDirent rounds (buildRawName (stripSlash path)) with
    | none => pure (-1)
    | some slot =>
        match ← loadFirstClus slot with
        | none => pure (-1)
        | some first => do
            freeFile rounds first
            pure (if ← modifyEntry slot editDeleted then 0 else -1)

/-- The two lookups of `fat_frename`: the new name must be free. -/
def renameLookup (rounds : Nat) (old new : List UInt8) : DriverM (Option Slot) := do
  match ← fatFindDirent rounds (buildRawName (stripSlash new)) with
  | some _ => pure none
  | none => fatFindDirent rounds (buildRawName (stripSlash old))

def fatFrename (rounds : Nat) (old new : List UInt8) : DriverM Int := do
  if !(← mount).valid then pure (-1)
  else
    invalidate
    match ← renameLookup rounds old new with
    | none => pure (-1)
    | some slot => do
        let raw := buildRawName (stripSlash new)
        pure (if ← modifyEntry slot fun off => (·.blit off raw) then 0 else -1)

end Write

section Directories

/-- The part of a path up to its last slash, without it, and the leaf. -/
def splitLeaf (path : List UInt8) : Option (List UInt8) × List UInt8 :=
  let leaf := path.rtakeWhile (· ≠ 47)
  if leaf.length = path.length then (none, leaf)
  else (some (path.take (path.length - leaf.length - 1)), leaf)

/-- `resolve_parent`: the cluster of the parent directory, or the code. -/
def resolveParent (rounds : Nat) (path : List UInt8) : DriverM (Except Int Nat) := do
  let m ← mount
  match (splitLeaf (stripSlash path)).1 with
  | none => pure (.ok (if m.type = .fat32 then m.rootClus else 0))
  | some parent =>
      if 40 ≤ parent.length then pure (.error (-1))
      else
        match ← fatDiropenPath rounds parent with
        | .error _ => pure (.error (-2))
        | .ok it => pure (.ok it.curClus)

/-- The leaf `resolve_parent` points to. -/
def leafOf (path : List UInt8) : List UInt8 := (splitLeaf (stripSlash path)).2

/-- The name of the entries `.` and `..`. -/
def dotName (dots : Nat) : List UInt8 :=
  List.replicate dots 46 ++ List.replicate (11 - dots) 32

/-- A directory entry with a first cluster and size 0. -/
def editDirEntry (off : Nat) (raw : List UInt8) (clus : Nat) (s : Sector) : Sector :=
  editSize off 0 (editFirstClus off clus
    ((s.blit off raw).blit (off + 11) [attrDir]))

/-- The first sector of a new directory. -/
def dotSector (clus parent : Nat) : Sector :=
  editDirEntry 32 (dotName 2) parent (editDirEntry 0 (dotName 1) clus Buffer.zero)

/-- The writes of a new directory's cluster; `true` when all succeed. -/
def writeDirCluster (clus parent : Nat) : DriverM Bool := do
  let m ← mount
  editWbuf fun _ => dotSector clus parent
  if !(← writeWbuf (m.clusToLba clus)) then pure false
  else
    editWbuf fun _ => Buffer.zero
    let failed ← Prog.firstOf
      (fun lba => do pure (if ← writeWbuf lba then none else some ()))
      (m.clusterLbas clus).tail
    pure failed.isNone

/-- The entry of a new directory in its parent. -/
def editNewDir (raw : List UInt8) (clus off : Nat) (s : Sector) : Sector :=
  editDirEntry off raw clus (s.blit off (List.replicate 32 0))

/-- `fat_mkdir` with an allocated cluster; a failure before the last write gives the
cluster back. -/
def plantDir (rounds parent : Nat) (raw : List UInt8) (nc : Nat) : DriverM Int := do
  let giveBack : DriverM Int := do
    let _ ← fatSetEntry nc 0
    pure (-1)
  if !(← writeDirCluster nc parent) then giveBack
  else
    match ← findEmptyDirentAt rounds parent with
    | none => giveBack
    | some slot =>
        if !(← loadWbuf slot.lba) then giveBack
        else do pure (if ← updateSec slot.lba (editNewDir raw nc slot.off) then 0 else -1)

def fatMkdir (rounds : Nat) (path : List UInt8) : DriverM Int := do
  if !(← mount).valid then pure (-1)
  else
    invalidate
    match ← resolveParent rounds path with
    | .error _ => pure (-2)
    | .ok parent =>
        let raw := buildRawName (leafOf path)
        match ← findDirentAt rounds parent raw with
        | some _ => pure (-1)
        | none =>
            let nc ← fatAllocCluster
            if nc = 0 then pure (-1) else plantDir rounds parent raw nc

/-- An entry the emptiness test of `fat_rmdir` passes over. -/
def Found.isDot (f : Found) : Bool :=
  f.de.name.getD 0 0 = 46 ∧
    (f.de.name.getD 1 0 = 32 ∨ (f.de.name.getD 1 0 = 46 ∧ f.de.name.getD 2 0 = 32))

/-- The end of `fat_rmdir`: the chain is freed and the entry deleted. -/
def removeDir (rounds : Nat) (slot : Slot) (first : Nat) : DriverM Int := do
  if !(← fatFreeChain rounds first) then pure (-1)
  else do pure (if ← modifyEntry slot editDeleted then 0 else -1)

/-- The lookup of `fat_rmdir`: the entry, or the code. -/
def rmdirLookup (rounds : Nat) (path : List UInt8) : DriverM (Except Int Slot) := do
  match ← resolveParent rounds path with
  | .error _ => pure (.error (-2))
  | .ok parent =>
      match ← findDirentAt rounds parent (buildRawName (leafOf path)) with
      | none => pure (.error (-1))
      | some slot => pure (.ok slot)

/-- `fat_rmdir` once the entry is found. -/
def rmdirSlot (rounds : Nat) (slot : Slot) : DriverM Int := do
  if !(← loadWbuf slot.lba) then pure (-1)
  else
    let buf ← wbuf
    let first := firstClusAt buf slot.off
    if !hasAttr (buf.get (slot.off + 11)) attrDir then pure (-3)
    else if first < 2 then pure (-1)
    else
      match ← searchDir rounds (!·.isDot) ((← mount).diropenClus first) with
      | (some _, _) => pure (-4)
      | (none, _) => removeDir rounds slot first

def fatRmdir (rounds : Nat) (path : List UInt8) : DriverM Int := do
  if !(← mount).valid then pure (-1)
  else
    invalidate
    match ← rmdirLookup rounds path with
    | .error code => pure code
    | .ok slot => rmdirSlot rounds slot

end Directories

end Ncd15.Fat
