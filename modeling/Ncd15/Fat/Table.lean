import Ncd15.Fat.Driver

/-!
# The file allocation table

Reading and writing one entry in the three widths, and the functions that search
the table or follow a chain in it.
-/

namespace Ncd15.Fat

open Ncd15.Library

/-- The result `0xFFFFFFFF` of `fat_next_clus`: end of chain, or a failed read. -/
def noClus : Nat := 0xFFFFFFFF

section Entries

def Mount.entryOff (m : Mount) (clus : Nat) : Nat :=
  match m.type with
  | .fat16 => u32 (clus * 2)
  | .fat32 => u32 (clus * 4)
  | _ => u32 (clus + clus / 2)

/-- The sector of the first copy of the table that holds an entry. -/
def Mount.entryLba (m : Mount) (clus : Nat) : Nat :=
  u32 (m.rsvdSec + m.entryOff clus / 512)

def Mount.entryIdx (m : Mount) (clus : Nat) : Nat := m.entryOff clus % 512

/-- A 12-bit entry from the two bytes it shares with its neighbour. -/
def entry12 (clus : Nat) (b0 b1 : UInt8) : Nat :=
  if clus % 2 = 1 then b0.toNat / 16 + b1.toNat * 16
  else b0.toNat + b1.toNat % 16 * 256

/-- The comparison of an entry with the end-of-chain marks. -/
def chainEnd (mark entry : Nat) : Nat := if mark ≤ entry then noClus else entry

/-- The FAT12 case of `fat_next_clus`; an entry in the last byte of a sector takes
three more reads. -/
def fatNextClus12 (m : Mount) (clus : Nat) : DriverM Nat := do
  let lba := m.entryLba clus
  let idx := m.entryIdx clus
  if !(← readFatSec lba) then pure noClus
  else if idx = 511 then
    if !(← readFatSec (u32 (lba + 1))) then pure noClus
    else if !(← readFatSec lba) then pure noClus
    else do
      let b0 := (← wbuf).get idx
      if !(← readFatSec (u32 (lba + 1))) then pure noClus
      else do pure (chainEnd 0xFF8 (entry12 clus b0 ((← wbuf).get 0)))
  else do
    let buf ← wbuf
    pure (chainEnd 0xFF8 (entry12 clus (buf.get idx) (buf.get (idx + 1))))

def fatNextClus (clus : Nat) : DriverM Nat := do
  let m ← mount
  let idx := m.entryIdx clus
  match m.type with
  | .fat16 =>
      if !(← readFatSec (m.entryLba clus)) then pure noClus
      else do pure (chainEnd 0xFFF8 ((← wbuf).loadLe idx 2))
  | .fat32 =>
      if !(← readFatSec (m.entryLba clus)) then pure noClus
      else do pure (chainEnd 0x0FFFFFF8 ((← wbuf).loadLe idx 4 % 2 ^ 28))
  | _ => fatNextClus12 m clus

def edit16 (idx value : Nat) (s : Sector) : Sector := s.blit idx (Buffer.leBytes 2 value)

/-- The edit of a 32-bit entry, whose top four bits stay. -/
def edit32 (idx value : Nat) (s : Sector) : Sector :=
  s.blit idx (Buffer.leBytes 4 (s.loadLe idx 4 / 2 ^ 28 * 2 ^ 28 + value % 2 ^ 28))

/-- The first byte of a 12-bit entry, given the byte that is there. -/
def low12 (clus value : Nat) (b0 : UInt8) : UInt8 :=
  if clus % 2 = 1 then UInt8.ofNat (b0.toNat % 16 + value % 16 * 16) else UInt8.ofNat value

/-- The second byte of a 12-bit entry, given the byte that is there. -/
def high12 (clus value : Nat) (b1 : UInt8) : UInt8 :=
  if clus % 2 = 1 then UInt8.ofNat (value / 16)
  else UInt8.ofNat (b1.toNat / 16 * 16 + value / 256 % 16)

/-- The edit of a 12-bit entry that lies in one sector. -/
def edit12 (clus idx value : Nat) (s : Sector) : Sector :=
  s.blit idx [low12 clus value (s.get idx), high12 clus value (s.get (idx + 1))]

def editSpill (clus value : Nat) (s : Sector) : Sector :=
  s.blit 0 [high12 clus value (s.get 0)]

/-- `fat_set_entry` for an entry that spans two sectors: both sectors of the first
copy, then both of the second. -/
def fatSetStraddled (m : Mount) (clus value : Nat) : DriverM Bool := do
  let lba := m.entryLba clus
  let idx := m.entryIdx clus
  let first := low12 clus value ((← wbuf).get idx)
  if !(← updateSec lba (·.blit idx [first])) then pure false
  else if !(← loadWbuf (u32 (lba + 1))) then pure false
  else if !(← updateSec (u32 (lba + 1)) (editSpill clus value)) then pure false
  else if !(← loadWbuf (u32 (lba + m.fatSec))) then pure false
  else if !(← updateSec (u32 (lba + m.fatSec)) (·.blit idx [first])) then pure false
  else if !(← loadWbuf (u32 (lba + m.fatSec + 1))) then pure false
  else updateSec (u32 (lba + m.fatSec + 1)) (editSpill clus value)

/-- The edit of an entry that lies in one sector. -/
def Mount.editEntry (m : Mount) (clus value : Nat) : Sector → Sector :=
  match m.type with
  | .fat16 => edit16 (m.entryIdx clus) value
  | .fat32 => edit32 (m.entryIdx clus) value
  | _ => edit12 clus (m.entryIdx clus) value

/-- A 12-bit entry whose bytes lie in two sectors. -/
def Mount.Straddles (m : Mount) (clus : Nat) : Prop :=
  m.type ≠ .fat16 ∧ m.type ≠ .fat32 ∧ m.entryIdx clus = 511

instance (m : Mount) (clus : Nat) : Decidable (m.Straddles clus) := instDecidableAnd

/-- The mirror loop of `fat_set_entry`: the sector in the buffer goes to the other
copies. -/
def mirrorFat (m : Mount) (lba : Nat) : DriverM Bool := do
  let failed ← Prog.firstOf
    (fun i => do pure (if ← writeWbuf (u32 (lba + i * m.fatSec)) then none else some ()))
    (List.range' 1 (m.numFats - 1))
  pure failed.isNone

/-- `fat_set_entry`; `true` stands for the result 0. -/
def fatSetEntry (clus value : Nat) : DriverM Bool := do
  let m ← mount
  invalidate
  let lba := m.entryLba clus
  if !(← loadWbuf lba) then pure false
  else if m.Straddles clus then fatSetStraddled m clus value
  else if !(← updateSec lba (m.editEntry clus value)) then pure false
  else mirrorFat m lba

end Entries

section Search

/-- `M.cluster_count + 2`, the end of the cluster numbers. -/
def Mount.clusEnd (m : Mount) : Nat := u32 (m.clusterCount + 2)

/-- The cluster numbers the loops over the table run through. -/
def Mount.clusters (m : Mount) : List Nat := List.range' 2 (m.clusEnd - 2)

def fatCountFreeClusters : DriverM Nat := do
  let m ← mount
  if !m.valid then pure 0
  else
    m.clusters.foldlM (fun count c => do
      pure (if (← fatNextClus c) = 0 then u32 (count + 1) else count)) 0

/-- The mark `fat_alloc_cluster` writes. -/
def Mount.eoc (m : Mount) : Nat :=
  match m.type with
  | .fat12 => 0xFFF
  | .fat16 => 0xFFFF
  | _ => 0x0FFFFFFF

/-- The attempt of `fat_alloc_cluster` at one cluster. -/
def tryCluster (m : Mount) (c : Nat) : DriverM (Option Nat) := do
  if (← fatNextClus c) = 0 then
    if !(← fatSetEntry c m.eoc) then pure (some 0) else pure (some c)
  else pure none

/-- `fat_alloc_cluster`: 0 when the disk is full. -/
def fatAllocCluster : DriverM Nat := do
  let m ← mount
  let found ← Prog.firstOf (tryCluster m) m.clusters
  pure (found.getD 0)

/-- One round of `fat_free_chain`. -/
def freeRound (m : Mount) (c : Nat) : DriverM (Nat ⊕ Bool) := do
  if 2 ≤ c ∧ c < m.clusEnd then
    let nxt ← fatNextClus c
    if !(← fatSetEntry c 0) then pure (.inr false)
    else if nxt = noClus then pure (.inr true)
    else pure (.inl nxt)
  else pure (.inr true)

/-- `fat_free_chain`; `true` stands for the result 0. -/
def fatFreeChain (rounds : Nat) (first : Nat) : DriverM Bool := do
  let m ← mount
  Prog.loop (freeRound m) rounds first

end Search

end Ncd15.Fat
