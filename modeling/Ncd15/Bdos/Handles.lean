import Ncd15.Fat.Files
import Ncd15.Library.Fuel

/-!
# File control blocks and handles

The file interface of `bdos.c`: the table of open files, the link from a file control
block to its entry in the table, the path a control block names, and the functions
that open, create, read and write files record by record.
-/

namespace Ncd15.Bdos

open Ncd15.Library Ncd15.Fat

/-- `FAT_MAX_OPEN`. -/
abbrev fatMaxOpen : Nat := 16

/-- A file control block. -/
abbrev Fcb := Buffer 36

/-- The fields of a control block. -/
def fcbDrv : Nat := 0
def fcbName : Nat := 1
def fcbEx : Nat := 12
def fcbS1 : Nat := 13
def fcbS2 : Nat := 14
def fcbRc : Nat := 15
def fcbPriv : Nat := 16
def fcbCr : Nat := 32
def fcbR0 : Nat := 33

/-- `fhandle_t`. -/
structure FHandle where
  inUse : Bool
  generation : UInt8
  file : FatFile

/-- The static variables of `bdos.c` that the file functions use, with the driver below
them.  `dma` is the record at `cur_dma`, `none` for the address 0. -/
structure Kernel where
  fat : Driver
  mounted : Bool
  curDrive : UInt8
  curUser : UInt8
  curSubpath : List UInt8
  fhandles : Fin fatMaxOpen → FHandle
  nextGeneration : UInt8
  dma : Option (Buffer 128)

abbrev BdosM (α : Type) := Prog Kernel α

/-- A call of the driver. -/
def callFat {α : Type} (f : DriverM α) : BdosM α := fun b =>
  (f b.fat).map fun result => (result.1, { b with fat := result.2 })

section Handles

/-- `fhandles[idx] = h`. -/
def Kernel.setHandle (b : Kernel) (idx : Fin fatMaxOpen) (h : FHandle) : Kernel :=
  { b with fhandles := Function.update b.fhandles idx h }

/-- `alloc_handle`; `none` stands for -1. -/
def allocHandle : BdosM (Option (Fin fatMaxOpen)) := fun b =>
  match (List.finRange fatMaxOpen).find? fun idx => !(b.fhandles idx).inUse with
  | none => some (none, b)
  | some idx =>
      some (some idx, {
        b.setHandle idx { b.fhandles idx with inUse := true, generation := b.nextGeneration } with
        nextGeneration := if b.nextGeneration + 1 = 0 then 1 else b.nextGeneration + 1 })

/-- `resolve_fcb`; `none` stands for the null pointer. -/
def Kernel.resolveFcb (b : Kernel) (fcb : Fcb) : Option (Fin fatMaxOpen) :=
  if fcb.get fcbPriv ≠ 88 ∨ fcb.get (fcbPriv + 1) ≠ 70 then none
  else if h : (fcb.get (fcbPriv + 4)).toNat < fatMaxOpen then
    let idx : Fin fatMaxOpen := ⟨(fcb.get (fcbPriv + 4)).toNat, h⟩
    if !(b.fhandles idx).inUse then none
    else if (b.fhandles idx).generation ≠ fcb.get (fcbPriv + 5) then none
    else some idx
  else none

/-- `stash_handle` for a handle of this generation. -/
def stashHandle (fcb : Fcb) (idx : Fin fatMaxOpen) (generation : UInt8) : Fcb :=
  fcb.blit fcbPriv [88, 70, 0, 0, UInt8.ofNat idx, generation]

/-- The call of a file function on the file of a handle. -/
def callFile {α : Type} (idx : Fin fatMaxOpen) (f : FatFile → DriverM (α × FatFile)) :
    BdosM α := fun b =>
  (f (b.fhandles idx).file b.fat).map fun result =>
    (result.1.1, { b with fat := result.2 }.setHandle idx
      { b.fhandles idx with file := result.1.2 })

end Handles

section Paths

/-- `mount_paths`. -/
def mountPath (drive : Nat) : List UInt8 :=
  if drive = 0 then [] else [47, UInt8.ofNat (65 + drive)]

/-- The `/U<n>` part of a path. -/
def userPath (user : Nat) : List UInt8 :=
  if user = 0 then []
  else 47 :: 85 :: (if 10 ≤ user then [UInt8.ofNat (48 + user / 10)] else []) ++
    [UInt8.ofNat (48 + user % 10)]

/-- `build_path`; `none` stands for -1. -/
def Kernel.buildPath (b : Kernel) (drive user : UInt8) (name : List UInt8) (max : Nat) :
    Option (List UInt8) :=
  let mounted := (mountPath drive.toNat).take (max - 1)
  if 16 ≤ drive then none
  else if 0 < user ∧ max - 1 < mounted.length + 4 then none
  else some ((mounted ++ userPath user.toNat ++ b.curSubpath ++
    if name.takeWhile (· ≠ 0) = [] then [] else 47 :: name.takeWhile (· ≠ 0)).take (max - 1))

/-- `fcb_drive`. -/
def Kernel.fcbDrive (b : Kernel) (fcb : Fcb) : UInt8 :=
  if fcb.get fcbDrv = 0 then b.curDrive else (fcb.get fcbDrv - 1) &&& 0x0F

/-- `fcb_to_name`: at most 8 and 3 characters, so that the buffer of 16 is never
full. -/
def fcbToName (fcb : Fcb) : List UInt8 :=
  let base := (fcb.slice fcbName 8).takeWhile (· ≠ 32)
  let ext := fcb.slice (fcbName + 8) 3
  if ext.any (· ≠ 32) then base ++ 46 :: ext.takeWhile (· ≠ 32) else base

/-- `fcb_to_path` with the buffer of 40 that its callers have. -/
def Kernel.fcbToPath (b : Kernel) (fcb : Fcb) : List UInt8 :=
  (b.buildPath (b.fcbDrive fcb) b.curUser (fcbToName fcb) 40).getD []

end Paths

section Records

/-- `ensure_mounted`; `true` stands for 0. -/
def ensureMounted : BdosM Bool := do
  if (← get).mounted then pure true
  else if (← callFat fatMount) ≠ 0 then pure false
  else do
    modify fun b => { b with mounted := true }
    pure true

/-- `fhandles[idx].in_use = 0`. -/
def dropHandle (idx : Fin fatMaxOpen) : BdosM Unit :=
  modify fun b => b.setHandle idx { b.fhandles idx with inUse := false }

/-- The record number in the fields S2, EX and CR. -/
def position (fcb : Fcb) : Nat :=
  ((fcb.get fcbS2).toNat <<< 12) ||| ((fcb.get fcbEx).toNat <<< 7) ||| (fcb.get fcbCr).toNat

/-- The fields CR, EX and S2 for a record number. -/
def setPosition (fcb : Fcb) (record : Nat) : Fcb :=
  ((fcb.blit fcbCr [UInt8.ofNat (record % 128)]).blit fcbEx
    [UInt8.ofNat (record / 128 % 32)]).blit fcbS2 [UInt8.ofNat (record / 4096)]

/-- The number of records of a file of `size` bytes, in 32 bits. -/
def recordCount (size : Nat) : Nat := u32 (size + 127) / 128

/-- The extent fields `d_open` sets. -/
def openExtent (fcb : Fcb) (records : Nat) : Fcb :=
  ((((fcb.blit fcbEx [UInt8.ofNat (records / 128 % 32)]).blit fcbS1 [0]).blit fcbS2
    [UInt8.ofNat (records / 4096)]).blit fcbRc [UInt8.ofNat (records % 128)]).blit fcbCr [0]

/-- The handle a control block gets: opened by `open`, or given back. -/
def openHandle (fcb : Fcb) (openFile : List UInt8 → FatFile → DriverM (Int × FatFile)) :
    BdosM (Option (Fin fatMaxOpen)) := do
  let path := (← get).fcbToPath fcb
  match ← allocHandle with
  | none => pure none
  | some idx =>
      if (← callFile idx (openFile path)) ≠ 0 then
        dropHandle idx
        pure none
      else pure (some idx)

def dOpen (rounds : Nat) (fcb : Fcb) : BdosM (Nat × Fcb) := do
  if !(← ensureMounted) then pure (0xFF, fcb)
  else
    match ← openHandle fcb (fatFopen rounds) with
    | none => pure (0xFF, fcb)
    | some idx =>
        let h := (← get).fhandles idx
        pure (0, openExtent (stashHandle fcb idx h.generation) (recordCount h.file.fileSize))

def dMake (rounds : Nat) (fcb : Fcb) : BdosM (Nat × Fcb) := do
  if !(← ensureMounted) then pure (0xFF, fcb)
  else
    match ← openHandle fcb (fatFcreate rounds) with
    | none => pure (0xFF, fcb)
    | some idx =>
        let h := (← get).fhandles idx
        pure (0, openExtent (stashHandle fcb idx h.generation) 0)

def dClose (fcb : Fcb) : BdosM (Nat × Fcb) := do
  match (← get).resolveFcb fcb with
  | none => pure (0xFF, fcb)
  | some idx =>
      modify fun b => b.setHandle idx
        { b.fhandles idx with inUse := false, file := fatFclose (b.fhandles idx).file }
      pure (0, fcb.blit fcbPriv [0])

/-- A record after a read: the bytes that came, and end-of-file characters behind them. -/
def padRecord (buf : Buffer 128) (got : Int) (bytes : List UInt8) : Buffer 128 :=
  if 0 < got ∧ got < 128 then
    (buf.blit 0 bytes).blit got.toNat (List.replicate (128 - got.toNat) 0x1A)
  else buf.blit 0 bytes

def deliver (got : Int) (bytes : List UInt8) : BdosM Unit :=
  modify fun b => { b with dma := b.dma.map (padRecord · got bytes) }

def dReadSeq (rounds : Nat) (fcb : Fcb) : BdosM (Nat × Fcb) := do
  match (← get).resolveFcb fcb with
  | none => pure (1, fcb)
  | some idx =>
      let b ← get
      let record := position fcb
      let byteOff := u32 (record * 128)
      if b.dma.isNone then pure (0xFF, fcb)
      else if (b.fhandles idx).file.fileSize ≤ byteOff then pure (1, fcb)
      else if (← callFile idx fun fp => fatFseek fp byteOff) ≠ 0 then pure (0xFF, fcb)
      else
        let (got, bytes) ← callFile idx fun fp => do
          let (got, bytes, fp) ← fatFread rounds fp 128
          pure ((got, bytes), fp)
        deliver got bytes
        if got ≤ 0 then pure (1, fcb) else pure (0, setPosition fcb (record + 1))

/-- `fat_fflush` of the file of a handle, its result not looked at. -/
def flushHandle (idx : Fin fatMaxOpen) : BdosM Unit := do
  let h := (← get).fhandles idx
  let _ ← callFat (fatFflush h.file)

def dWriteSeq (rounds : Nat) (fcb : Fcb) : BdosM (Nat × Fcb) := do
  match (← get).resolveFcb fcb with
  | none => pure (0xFF, fcb)
  | some idx =>
      match (← get).dma with
      | none => pure (0xFF, fcb)
      | some buf =>
          let record := position fcb
          if (← callFile idx fun fp => fatFseek fp (u32 (record * 128))) ≠ 0 then
            pure (0xFF, fcb)
          else if (← callFile idx fun fp => fatFwrite rounds fp (buf.slice 0 128)) ≠ 128 then
            pure (0xFF, fcb)
          else
            let records := recordCount ((← get).fhandles idx).file.fileSize
            flushHandle idx
            pure (0, (setPosition fcb (record + 1)).blit fcbRc [UInt8.ofNat (records % 128)])

/-- The record number in the fields R0, R1 and R2. -/
def randomRecord (fcb : Fcb) : Nat :=
  (fcb.get fcbR0).toNat ||| ((fcb.get (fcbR0 + 1)).toNat <<< 8) |||
    ((fcb.get (fcbR0 + 2)).toNat <<< 16)

def dReadRandom (rounds : Nat) (fcb : Fcb) : BdosM (Nat × Fcb) := do
  match (← get).resolveFcb fcb with
  | none => pure (6, fcb)
  | some idx =>
      let b ← get
      let byteOff := u32 (randomRecord fcb * 128)
      if b.dma.isNone then pure (0xFF, fcb)
      else if (b.fhandles idx).file.fileSize ≤ byteOff then pure (1, fcb)
      else if (← callFile idx fun fp => fatFseek fp byteOff) ≠ 0 then pure (0xFF, fcb)
      else
        let (got, bytes) ← callFile idx fun fp => do
          let (got, bytes, fp) ← fatFread rounds fp 128
          pure ((got, bytes), fp)
        deliver got bytes
        if got ≤ 0 then pure (1, fcb) else pure (0, setPosition fcb (randomRecord fcb))

def dWriteRandom (rounds : Nat) (fcb : Fcb) : BdosM (Nat × Fcb) := do
  match (← get).resolveFcb fcb with
  | none => pure (0xFF, fcb)
  | some idx =>
      match (← get).dma with
      | none => pure (0xFF, fcb)
      | some buf =>
          let byteOff := u32 (randomRecord fcb * 128)
          if (← callFile idx fun fp => fatFseek fp byteOff) ≠ 0 then pure (0xFF, fcb)
          else if (← callFile idx fun fp => fatFwrite rounds fp (buf.slice 0 128)) ≠ 128 then
            pure (0xFF, fcb)
          else
            flushHandle idx
            pure (0, setPosition fcb (randomRecord fcb))

end Records

section Fields

variable (fcb : Fcb)

theorem get_setPosition_priv (record : Nat) {k : Nat} (small : k < 16) :
    (setPosition fcb record).get (fcbPriv + k) = fcb.get (fcbPriv + k) := by
  unfold setPosition fcbCr fcbEx fcbS2 fcbPriv
  simp (disch := omega) only [Buffer.get_blit_singleton]
  rw [if_neg (by omega), if_neg (by omega), if_neg (by omega)]

theorem get_openExtent_priv (records : Nat) {k : Nat} (small : k < 16) :
    (openExtent fcb records).get (fcbPriv + k) = fcb.get (fcbPriv + k) := by
  unfold openExtent fcbCr fcbEx fcbS1 fcbS2 fcbRc fcbPriv
  simp (disch := omega) only [Buffer.get_blit_singleton]
  rw [if_neg (by omega), if_neg (by omega), if_neg (by omega), if_neg (by omega),
    if_neg (by omega)]

/-- The number in three fields of 8, 5 and 7 bits. -/
theorem fields_eq (record : Nat) :
    ((record / 4096 % 256) <<< 12) ||| ((record / 128 % 32) <<< 7) ||| (record % 128) =
      record % 2 ^ 20 := by
  have low : (record / 128 % 32) <<< 7 < 2 ^ 12 := by
    rw [Nat.shiftLeft_eq]
    omega
  have high : (record / 4096 % 256) <<< 12 + (record / 128 % 32) <<< 7 =
      (record / 4096 % 256 * 32 + record / 128 % 32) <<< 7 := by
    simp only [Nat.shiftLeft_eq]
    omega
  rw [← Nat.shiftLeft_add_eq_or_of_lt low, high,
    ← Nat.shiftLeft_add_eq_or_of_lt (Nat.mod_lt _ (by decide)), Nat.shiftLeft_eq]
  omega

theorem position_setPosition (record : Nat) :
    position (setPosition fcb record) = record % 2 ^ 20 := by
  rw [← fields_eq]
  unfold position setPosition fcbCr fcbEx fcbS2
  simp (disch := decide) only [Buffer.get_blit_singleton]
  have byte (n : Nat) : (UInt8.ofNat n).toNat = n % 256 := UInt8.toNat_ofNat'
  have narrow (n k : Nat) (small : k ≤ 256) (positive : 0 < k) : n % k % 256 = n % k :=
    Nat.mod_eq_of_lt (Nat.lt_of_lt_of_le (Nat.mod_lt n positive) small)
  simp [byte, narrow]

theorem position_openExtent (records : Nat) :
    position (openExtent fcb records) = records / 128 * 128 % 2 ^ 20 := by
  rw [← fields_eq]
  unfold position openExtent fcbCr fcbEx fcbS1 fcbS2 fcbRc
  simp (disch := decide) only [Buffer.get_blit_singleton]
  have byte (n : Nat) : (UInt8.ofNat n).toNat = n % 256 := UInt8.toNat_ofNat'
  have page : records / 128 * 128 / 4096 = records / 4096 := by omega
  have extent : records / 128 * 128 / 128 = records / 128 := by omega
  have narrow : records / 128 % 32 % 256 = records / 128 % 32 := by omega
  simp [byte, page, extent, narrow]

end Fields

section Driver

variable {α : Type} {b b' : Kernel} {a : α}

theorem callFat_run {f : DriverM α} {d : Driver}
    (run : f b.fat = some (a, d)) : callFat f b = some (a, { b with fat := d }) := by
  rw [callFat, run]
  rfl

theorem callFat_eq_some {f : DriverM α} (run : callFat f b = some (a, b')) :
    ∃ d, f b.fat = some (a, d) ∧ b' = { b with fat := d } := by
  obtain ⟨⟨a', d⟩, inner, same⟩ := Option.map_eq_some_iff.mp run
  obtain ⟨rfl, rfl⟩ := Prod.mk.inj same
  exact ⟨d, inner, rfl⟩

/-- A call that mounts the volume leaves everything but the driver. -/
theorem ensureMounted_eq_some {ok : Bool} (run : ensureMounted b = some (ok, b')) :
    ∃ d mounted, b' = { b with fat := d, mounted := mounted } := by
  rw [ensureMounted, Prog.get_bind_run] at run
  split at run
  · obtain ⟨-, rfl⟩ := Prod.mk.inj (Option.some.inj run)
    exact ⟨b.fat, b.mounted, rfl⟩
  · obtain ⟨code, b₁, mounting, run⟩ := Prog.bind_eq_some run
    obtain ⟨d, -, rfl⟩ := callFat_eq_some mounting
    split at run
    · obtain ⟨-, rfl⟩ := Prod.mk.inj (Option.some.inj run)
      exact ⟨d, b.mounted, rfl⟩
    · obtain ⟨-, rfl⟩ := Prod.mk.inj (Option.some.inj run)
      exact ⟨d, true, rfl⟩

theorem callFat_fueled {f : Nat → DriverM α} (fueled : Fueled f) :
    Fueled fun rounds => callFat (f rounds) := by
  rintro rounds rounds' le b ⟨a, b'⟩ run
  obtain ⟨d, inner, rfl⟩ := callFat_eq_some run
  exact callFat_run (fueled le _ _ inner)

end Driver

section Calls

variable {b : Kernel} {fcb fcb' : Fcb} {idx : Fin fatMaxOpen}

theorem resolveFcb_congr (same : ∀ k, k < 16 → fcb'.get (fcbPriv + k) = fcb.get (fcbPriv + k)) :
    b.resolveFcb fcb' = b.resolveFcb fcb := by
  have first := same 0 (by decide)
  rw [Nat.add_zero] at first
  unfold Kernel.resolveFcb
  rw [first, same 1 (by decide), same 4 (by decide), same 5 (by decide)]

theorem get_stashHandle (fcb : Fcb) (idx : Fin fatMaxOpen) (generation : UInt8) {k : Nat}
    (small : k < 6) : (stashHandle fcb idx generation).get (fcbPriv + k) =
      [88, 70, 0, 0, UInt8.ofNat idx, generation].getD k 0 := by
  have byte : (stashHandle fcb idx generation).get (fcbPriv + k) =
      [88, 70, 0, 0, UInt8.ofNat idx, generation].getD (fcbPriv + k - fcbPriv) 0 :=
    Buffer.get_blit_of_mem fcb (Nat.le_add_right fcbPriv k)
      (Nat.add_lt_add_left small fcbPriv) (by simp [fcbPriv])
  rwa [Nat.add_sub_cancel_left] at byte

theorem resolveFcb_stash (inUse : (b.fhandles idx).inUse = true) :
    b.resolveFcb (stashHandle fcb idx (b.fhandles idx).generation) = some idx := by
  have small : idx.val < 16 := idx.isLt
  have byte {k : Nat} := get_stashHandle fcb idx (b.fhandles idx).generation (k := k)
  have first := byte (k := 0) (by decide)
  rw [Nat.add_zero] at first
  have index : (UInt8.ofNat idx).toNat = idx := by
    rw [UInt8.toNat_ofNat']
    omega
  unfold Kernel.resolveFcb
  rw [first, byte (k := 1) (by decide), byte (k := 4) (by decide), byte (k := 5) (by decide)]
  simp [index, inUse]

/-- A call on the file of a handle changes the driver and this file. -/
structure Called (idx : Fin fatMaxOpen) (b b' : Kernel) (fp : FatFile) (d : Driver) : Prop where
  fat : b'.fat = d
  file : (b'.fhandles idx).file = fp
  dma : b'.dma = b.dma
  resolves : ∀ fcb, b'.resolveFcb fcb = b.resolveFcb fcb

theorem resolveFcb_setHandle {d : Driver} {h : FHandle}
    (inUse : h.inUse = (b.fhandles idx).inUse)
    (generation : h.generation = (b.fhandles idx).generation) (fcb : Fcb) :
    (({ b with fat := d } : Kernel).setHandle idx h).resolveFcb fcb = b.resolveFcb fcb := by
  have same (i : Fin fatMaxOpen) :
      (Function.update b.fhandles idx h i).inUse = (b.fhandles i).inUse ∧
        (Function.update b.fhandles idx h i).generation = (b.fhandles i).generation := by
    by_cases self : i = idx
    · subst self
      rw [Function.update_self]
      exact ⟨inUse, generation⟩
    · rw [Function.update_of_ne self]
      exact ⟨rfl, rfl⟩
  unfold Kernel.resolveFcb Kernel.setHandle
  simp only [(same _).1, (same _).2]

theorem callFile_run {α : Type} {f : FatFile → DriverM (α × FatFile)} {a : α} {fp : FatFile}
    {d : Driver} (run : f (b.fhandles idx).file b.fat = some ((a, fp), d)) :
    ∃ b', callFile idx f b = some (a, b') ∧ Called idx b b' fp d := by
  refine ⟨({ b with fat := d } : Kernel).setHandle idx { b.fhandles idx with file := fp }, ?_,
    rfl, ?_, rfl, resolveFcb_setHandle rfl rfl⟩
  · rw [callFile, run]
    rfl
  · exact congrArg FHandle.file (Function.update_self idx _ b.fhandles)

theorem callFile_eq_some {b b' : Kernel} {idx : Fin fatMaxOpen} {α : Type}
    {f : FatFile → DriverM (α × FatFile)} {a : α} (run : callFile idx f b = some (a, b')) :
    ∃ fp d, f (b.fhandles idx).file b.fat = some ((a, fp), d) ∧ b'.fat = d ∧ b'.dma = b.dma ∧
      b'.fhandles idx = { b.fhandles idx with file := fp } := by
  obtain ⟨⟨⟨a', fp⟩, d⟩, inner, result⟩ := Option.map_eq_some_iff.mp run
  obtain ⟨rfl, rfl⟩ := Prod.mk.inj result
  exact ⟨fp, d, inner, rfl, rfl, Function.update_self _ _ _⟩

theorem allocHandle_some {b b' : Kernel} {idx : Fin fatMaxOpen}
    (run : allocHandle b = some (some idx, b')) :
    b'.fat = b.fat ∧ b'.dma = b.dma ∧ (b'.fhandles idx).inUse = true := by
  unfold allocHandle at run
  split at run
  · simp at run
  · obtain ⟨found, rfl⟩ := Prod.mk.inj (Option.some.inj run)
    obtain rfl := Option.some.inj found
    refine ⟨rfl, rfl, ?_⟩
    simp [Kernel.setHandle]

/-- A control block that gets a handle. -/
theorem openHandle_some {b b' : Kernel} {fcb : Fcb} {idx : Fin fatMaxOpen}
    {openFile : List UInt8 → FatFile → DriverM (Int × FatFile)}
    (run : openHandle fcb openFile b = some (some idx, b')) :
    ∃ fp₀ fp d, openFile (b.fcbToPath fcb) fp₀ b.fat = some ((0, fp), d) ∧ b'.fat = d ∧
      b'.dma = b.dma ∧ (b'.fhandles idx).inUse = true ∧ (b'.fhandles idx).file = fp := by
  rw [openHandle, Prog.get_bind_run] at run
  obtain ⟨allocated, b₁, alloc, run⟩ := Prog.bind_eq_some run
  cases allocated with
  | none =>
      simp only [Prog.pure_run, Option.some.injEq, Prod.mk.injEq] at run
      exact absurd run.1 (by simp)
  | some idx' =>
      obtain ⟨code, b₂, call, run⟩ := Prog.bind_eq_some run
      split at run
      · obtain ⟨u, b₃, -, run⟩ := Prog.bind_eq_some run
        simp only [Prog.pure_run, Option.some.injEq, Prod.mk.injEq] at run
        exact absurd run.1 (by simp)
      · rename_i zero
        simp only [Prog.pure_run, Option.some.injEq, Prod.mk.injEq] at run
        obtain ⟨rfl, rfl⟩ := run
        obtain rfl : code = 0 := not_not.mp zero
        obtain ⟨fat₁, dma₁, inUse₁⟩ := allocHandle_some alloc
        obtain ⟨fp, d, inner, fat₂, dma₂, handle₂⟩ := callFile_eq_some call
        rw [fat₁] at inner
        refine ⟨_, fp, d, inner, fat₂, dma₂.trans dma₁, ?_, ?_⟩
        · rw [handle₂]
          exact inUse₁
        · rw [handle₂]

/-- What `d_open` and `d_make` do once the volume is mounted, when they succeed. -/
theorem openHandle_then {b b' : Kernel} {fcb fcb' : Fcb}
    {openFile : List UInt8 → FatFile → DriverM (Int × FatFile)} (records : FHandle → Nat)
    (run : (do
      match ← openHandle fcb openFile with
      | none => pure (0xFF, fcb)
      | some idx =>
          let h := (← get).fhandles idx
          pure (0, openExtent (stashHandle fcb idx h.generation) (records h)) : BdosM (Nat × Fcb))
        b = some ((0, fcb'), b')) :
    ∃ idx, openHandle fcb openFile b = some (some idx, b') ∧
      fcb' = openExtent (stashHandle fcb idx (b'.fhandles idx).generation)
        (records (b'.fhandles idx)) := by
  obtain ⟨found, b₁, handle, run⟩ := Prog.bind_eq_some run
  cases found with
  | none =>
      simp only [Prog.pure_run, Option.some.injEq, Prod.mk.injEq] at run
      exact absurd run.1.1 (by decide)
  | some idx =>
      dsimp only at run
      rw [Prog.get_bind_run] at run
      simp only [Prog.pure_run, Option.some.injEq, Prod.mk.injEq, true_and] at run
      obtain ⟨rfl, rfl⟩ := run
      exact ⟨idx, handle, rfl⟩

/-- The control block of a new handle stands for it. -/
theorem resolveFcb_openExtent {b : Kernel} {idx : Fin fatMaxOpen}
    (inUse : (b.fhandles idx).inUse = true) (fcb : Fcb) (records : Nat) :
    b.resolveFcb (openExtent (stashHandle fcb idx (b.fhandles idx).generation) records) =
      some idx := by
  rw [resolveFcb_congr fun k small => get_openExtent_priv _ _ small]
  exact resolveFcb_stash inUse

/-- The file of the handle that a control block stands for. -/
def Kernel.fileOf (b : Kernel) (fcb : Fcb) : Option FatFile :=
  (b.resolveFcb fcb).map fun idx => (b.fhandles idx).file

end Calls

end Ncd15.Bdos
