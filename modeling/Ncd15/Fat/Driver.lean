import Ncd15.Library.Buffer
import Ncd15.Library.Prog

/-!
# The state of the FAT driver

The block device, the mount data and the two one-sector buffers of `fat.c`, with
the primitives every operation is made of.  Two ghost fields record what goes
wrong with the shared buffer: a FAT read answered from a buffer that is not the
sector on disk, and a sector written back after an edit of other bytes than its
own.
-/

namespace Ncd15.Fat

open Ncd15.Library

/-- The value of an unsigned 32-bit expression. -/
def u32 (n : Nat) : Nat := n % 2 ^ 32

theorem u32_of_lt {n : Nat} (small : n < 2 ^ 32) : u32 n = n := Nat.mod_eq_of_lt small

theorem u32_lt (n : Nat) : u32 n < 2 ^ 32 := Nat.mod_lt n (by decide)

/-- `FAT_SECTOR_SIZE` bytes. -/
abbrev Sector := Buffer 512

/-- `fat_type_t`. -/
inductive FatType
  | none
  | fat12
  | fat16
  | fat32
  deriving DecidableEq, Repr

/-- `fat_mount_t`. -/
structure Mount where
  valid : Bool
  type : FatType
  bytesPerSec : Nat
  secPerClus : Nat
  rsvdSec : Nat
  numFats : Nat
  rootEntCount : Nat
  totalSec : Nat
  fatSec : Nat
  rootClus : Nat
  firstDataSec : Nat
  firstRootSec : Nat
  clusterCount : Nat

/-- The block device behind `blk_read` and `blk_write`.  Each write consumes a
fault: `true` makes it fail, and a device out of faults never fails. -/
structure BlkDev where
  sec : Nat → Sector
  capacity : Nat
  faults : List Bool

namespace BlkDev

/-- The range check of `blk_read` and `blk_write`. -/
def Has (b : BlkDev) (lba : Nat) : Prop := lba + 1 < 2 ^ 32 ∧ lba + 1 ≤ b.capacity

instance (b : BlkDev) (lba : Nat) : Decidable (b.Has lba) := instDecidableAnd

def put (b : BlkDev) (lba : Nat) (s : Sector) : BlkDev :=
  { b with sec := Function.update b.sec lba s, faults := b.faults.tail }

def skip (b : BlkDev) : BlkDev := { b with faults := b.faults.tail }

/-- The next write is made to fail. -/
def Faulty (b : BlkDev) : Prop := b.faults.head? = some true

instance (b : BlkDev) : Decidable b.Faulty := inferInstanceAs (Decidable (_ = _))

end BlkDev

/-- The static variables of `fat.c`. -/
structure Driver where
  blk : BlkDev
  m : Mount
  secBuf : Sector
  secBufLba : Nat
  secBufValid : Bool
  fatWbuf : Sector
  fatBufLba : Nat
  fatBufValid : Bool
  /-- Ghost: `read_fat_sec` succeeded with other bytes than those on disk. -/
  staleRead : Bool
  /-- Ghost: a sector was written back with other bytes changed than intended. -/
  lostUpdate : Bool

/-- Programs of the driver. -/
abbrev DriverM (α : Type) := Prog Driver α

abbrev Driver.disk (d : Driver) : Nat → Sector := d.blk.sec

section Primitives

/-- The mount data `M`. -/
def mount : DriverM Mount := fun d => some (d.m, d)

/-- The shared buffer `fat_wbuf`. -/
def wbuf : DriverM Sector := fun d => some (d.fatWbuf, d)

/-- `fat_buf_valid = 0`. -/
def invalidate : DriverM Unit := fun d => some ((), { d with fatBufValid := false })

/-- `read_sec`: the sector, or `none` for -1. -/
def readSec (lba : Nat) : DriverM (Option Sector) := fun d =>
  if d.secBufValid ∧ d.secBufLba = lba then some (some d.secBuf, d)
  else if d.blk.Has lba then
    some (some (d.disk lba),
      { d with secBuf := d.disk lba, secBufLba := lba, secBufValid := true })
  else some (none, d)

/-- Record a successful `read_fat_sec`. -/
def Driver.noteRead (d : Driver) (lba : Nat) : Driver :=
  { d with staleRead := d.staleRead || d.fatWbuf ≠ d.disk lba }

/-- The refill of the shared buffer by `read_fat_sec`. -/
def Driver.fillFat (d : Driver) (lba : Nat) : Driver :=
  { d with fatWbuf := d.disk lba, fatBufLba := lba, fatBufValid := true }

/-- `read_fat_sec`; `true` stands for the result 0. -/
def readFatSec (lba : Nat) : DriverM Bool := fun d =>
  if d.fatBufValid ∧ d.fatBufLba = lba then some (true, d.noteRead lba)
  else if d.blk.Has lba then some (true, (d.fillFat lba).noteRead lba)
  else some (false, d)

/-- `blk_read(lba, 1, fat_wbuf)`. -/
def loadWbuf (lba : Nat) : DriverM Bool := fun d =>
  if d.blk.Has lba then some (true, { d with fatWbuf := d.disk lba }) else some (false, d)

/-- An assignment to bytes of `fat_wbuf`. -/
def editWbuf (edit : Sector → Sector) : DriverM Unit := fun d =>
  some ((), { d with fatWbuf := edit d.fatWbuf })

/-- The state after a successful `write_sec` of a sector. -/
def Driver.stored (d : Driver) (lba : Nat) (s : Sector) : Driver :=
  { d with
    blk := d.blk.put lba s
    secBufValid := d.secBufValid && d.secBufLba ≠ lba
    fatBufValid := d.fatBufValid && d.fatBufLba ≠ lba }

/-- `write_sec(lba, fat_wbuf)`. -/
def writeWbuf (lba : Nat) : DriverM Bool := fun d =>
  if ¬ d.blk.Has lba then some (false, d)
  else if d.blk.Faulty then some (false, { d with blk := d.blk.skip })
  else some (true, d.stored lba d.fatWbuf)

/-- Record the write-back of an edit. -/
def noteUpdate (lba : Nat) (edit : Sector → Sector) : DriverM Unit := fun d =>
  some ((), { d with lostUpdate := d.lostUpdate || edit d.fatWbuf ≠ edit (d.disk lba) })

/-- A read-modify-write of part of a sector whose read half has been done: edit
the buffer and write it to the sector. -/
def updateSec (lba : Nat) (edit : Sector → Sector) : DriverM Bool := do
  noteUpdate lba edit
  editWbuf edit
  writeWbuf lba

end Primitives

section Mount

/-- The fields `fat_mount` copies from the boot sector. -/
def Mount.copyBoot (m : Mount) (bpb : Sector) : Mount :=
  { m with
    bytesPerSec := bpb.loadLe 11 2
    secPerClus := (bpb.get 13).toNat
    rsvdSec := bpb.loadLe 14 2
    numFats := (bpb.get 16).toNat
    rootEntCount := bpb.loadLe 17 2
    totalSec := if bpb.loadLe 19 2 ≠ 0 then bpb.loadLe 19 2 else bpb.loadLe 32 4
    fatSec := bpb.loadLe 22 2 }

/-- The first check of the copied fields that fails. -/
def Mount.bootError (m : Mount) : Option Int :=
  if m.bytesPerSec ≠ 512 then some (-3)
  else if m.secPerClus = 0 then some (-4)
  else if m.numFats = 0 then some (-5)
  else none

/-- The two fields that a FAT32 volume has elsewhere in the boot sector. -/
def Mount.extended (m : Mount) (bpb : Sector) : Mount :=
  if m.fatSec = 0 then { m with fatSec := bpb.loadLe 36 4, rootClus := bpb.loadLe 44 4 }
  else { m with rootClus := 0 }

/-- The fields `fat_mount` computes from the copied ones. -/
def Mount.derived (m : Mount) : Mount :=
  let rootDirSec := (m.rootEntCount * 32 + m.bytesPerSec - 1) / m.bytesPerSec
  let fatTotal := u32 (m.numFats * m.fatSec)
  let firstDataSec := u32 (m.rsvdSec + fatTotal + rootDirSec)
  let clusterCount := u32 (m.totalSec + 2 ^ 32 - firstDataSec) / m.secPerClus
  { m with
    valid := true
    type :=
      if clusterCount < 4085 then .fat12
      else if clusterCount < 65525 then .fat16
      else .fat32
    firstDataSec
    firstRootSec := u32 (m.rsvdSec + fatTotal)
    clusterCount }

/-- `M.valid = 0` and the two cache flags. -/
def Driver.unmounted (d : Driver) : Driver :=
  { d with m := { d.m with valid := false }, secBufValid := false, fatBufValid := false }

/-- Assignments to fields of `M`. -/
def editMount (edit : Mount → Mount) : DriverM Unit := fun d =>
  some ((), { d with m := edit d.m })

/-- `fat_mount`.  A check that fails after the first one leaves the copied fields in
`M`. -/
def fatMount : DriverM Int := do
  fun d => some ((), d.unmounted)
  match ← readSec 0 with
  | none => pure (-1)
  | some bpb =>
      if bpb.get 510 ≠ 0x55 ∨ bpb.get 511 ≠ 0xAA then pure (-2)
      else
        editMount (·.copyBoot bpb)
        match (← mount).bootError with
        | some code => pure code
        | none => do
            editMount fun m => (m.extended bpb).derived
            pure 0

/-- `fat_clus_to_lba`. -/
def Mount.clusToLba (m : Mount) (clus : Nat) : Nat :=
  if clus < 2 then 0 else u32 (m.firstDataSec + (clus - 2) * m.secPerClus)

end Mount

end Ncd15.Fat
