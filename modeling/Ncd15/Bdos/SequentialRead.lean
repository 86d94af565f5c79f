import Ncd15.Bdos.Handles
import Ncd15.Fat.Contents
import Ncd15.Fat.SharedBufferRuns

/-!
# Sequential reading

`d_read_seq` reads the record whose number stands in the fields S2, EX and CR of the
control block, which together count to `2 ^ 20`.  `d_open` sets these fields from the
size of the file, so that reading starts at the first record only when the file has
less than 128 of them.
-/

namespace Ncd15.Bdos

open Ncd15.Library Ncd15.Fat

section Opening

theorem walkFile_inUse (rounds : Nat) (fp : FatFile) (comps : List (List UInt8 × Bool))
    (it : DirIter) :
    Triple (fun _ => True) (walkFile rounds fp comps it) fun result _ =>
      result.1 = 0 → result.2.inUse = true := by
  have failed {code : Int} (nonzero : code ≠ 0) : Triple (fun _ : Driver => True)
      (pure (code, fp)) fun result _ => result.1 = 0 → result.2.inUse = true :=
    Triple.pure fun _ _ zero => absurd zero nonzero
  induction comps generalizing it with
  | nil => exact failed (by decide)
  | cons comp rest ih =>
      rw [walkFile]
      refine Triple.bind (fun _ _ _ _ _ => trivial) fun result => ?_
      obtain ⟨found, it⟩ := result
      cases found with
      | none => exact failed (by decide)
      | some found =>
          refine Triple.ite (fun _ => Triple.ite (fun _ => failed (by decide)) fun _ => ?_)
            fun _ => Triple.ite (fun _ => failed (by decide)) fun _ => ?_
          · exact Triple.bind (fun _ _ _ _ _ => trivial) fun m => ih _
          · exact Triple.pure fun _ _ _ => rfl

/-- What `fat_fopen` leaves when it finds the file. -/
theorem fatFopen_opened {rounds : Nat} {path : List UInt8} {fp fp' : FatFile} {d d' : Driver}
    (good : Good d) (secOk : d.SecOk) (run : fatFopen rounds path fp d = some ((0, fp'), d')) :
    fp'.inUse = true ∧ ReadStep d d' := by
  refine ⟨?_, ?_⟩
  · rw [fatFopen, Prog.bind_eq_of_run (mount_run d)] at run
    split at run
    · simp only [Prog.pure_run, Option.some.injEq, Prod.mk.injEq] at run
      exact absurd run.1.1 (by decide)
    · exact walkFile_inUse rounds fp _ _ d trivial _ d' run rfl
  · obtain ⟨good', blk, m⟩ := fatFopen_keeps (readFatSec_goodAt d.blk d.m) rounds path fp d
      ⟨good, rfl, rfl⟩ _ d' run
    exact ⟨blk, m, good', fatFopen_keeps readFatSec_secOk rounds path fp d secOk _ d' run⟩

end Opening

section Reading

variable {m : Mount} {disk : Nat → Sector} {clusters : List Nat} {size : Nat}

/-- The next record to be read is `record`, through a control block whose handle has a
file with these clusters and this size. -/
structure Reading (m : Mount) (disk : Nat → Sector) (clusters : List Nat) (size record : Nat)
    (fcb : Fcb) (b : Kernel) : Prop where
  ready : Ready b.fat
  secOk : b.fat.SecOk
  m : b.fat.m = m
  disk : b.fat.disk = disk
  dma : ∃ buf, b.dma = some buf
  handle : ∃ idx, b.resolveFcb fcb = some idx ∧ (b.fhandles idx).file.inUse = true ∧
    (b.fhandles idx).file.firstClus = clusters.getD 0 0 ∧ (b.fhandles idx).file.fileSize = size
  position : position fcb = record

/-- Record `k` of a file, padded with the end-of-file character. -/
def fileRecord (contents : List UInt8) (k : Nat) : Buffer 128 := fun i =>
  contents.getD (k * 128 + i) 0x1A

theorem padRecord_eq {buf : Buffer 128} {record n : Nat}
    (length : n = min 128 (size - record * 128))
    (inside : record * 128 < size) :
    padRecord buf n (m.bytesAt disk clusters (record * 128) n) =
      fileRecord (m.bytesAt disk clusters 0 size) record := by
  refine Buffer.ext fun i small => ?_
  have wanted : (fileRecord (m.bytesAt disk clusters 0 size) record).get i =
      if record * 128 + i < size then m.byteAt disk clusters (record * 128 + i) else 0x1A := by
    rw [Buffer.get, dif_pos small, fileRecord, getD_bytesAt, Nat.zero_add]
  have read (before : i < n) : (buf.blit 0 (m.bytesAt disk clusters (record * 128) n)).get i =
      m.byteAt disk clusters (record * 128 + i) := by
    rw [Buffer.get_blit_of_mem buf (Nat.zero_le i) (by simpa using before)
      (by rw [Mount.length_bytesAt]; omega), getD_bytesAt, if_pos (by omega), Nat.sub_zero]
  rw [wanted, padRecord]
  by_cases before : i < n
  · rw [if_pos (show record * 128 + i < size by omega)]
    split
    · rw [Buffer.get_blit_of_lt _ (by omega), read before]
    · exact read before
  · rw [if_neg (show ¬ record * 128 + i < size by omega), if_pos (by omega),
      Buffer.get_blit_of_mem _ (by omega) (by simp; omega) (by simp; omega)]
    have filled : i - n < 128 - n := by omega
    simp [filled]

theorem dReadSeq_end {rounds record : Nat} {fcb : Fcb} {b : Kernel}
    (reading : Reading m disk clusters size record fcb b) (small : record < 2 ^ 20)
    (atEnd : size ≤ record * 128) : dReadSeq rounds fcb b = some ((1, fcb), b) := by
  obtain ⟨idx, resolved, -, -, fileSize⟩ := reading.handle
  obtain ⟨buf, dma⟩ := reading.dma
  have byteOff : u32 (record * 128) = record * 128 := u32_of_lt (by omega)
  have dma : ¬ b.dma.isNone = true := by simp [dma]
  rw [dReadSeq, Prog.get_bind_run, resolved]
  dsimp only
  rw [Prog.get_bind_run, if_neg dma, reading.position, byteOff, fileSize, if_pos atEnd]
  rfl

/-- The read of a record through a handle. -/
theorem callFread_run {rounds : Nat} {idx : Fin fatMaxOpen} {b : Kernel} {got : Int}
    {bytes : List UInt8} {fp : FatFile} {d : Driver}
    (run : fatFread rounds (b.fhandles idx).file 128 b.fat = some ((got, bytes, fp), d)) :
    ∃ b', callFile idx (fun fp => do
      let (got, bytes, fp) ← fatFread rounds fp 128
      pure ((got, bytes), fp)) b = some ((got, bytes), b') ∧ Called idx b b' fp d :=
  callFile_run (Prog.bind_eq_of_run run)

/-- A record of the file is read. -/
theorem dReadSeq_record {rounds record : Nat} {fcb : Fcb} {b : Kernel}
    (reading : Reading m disk clusters size record fcb b)
    (file : FileOnDisk m disk clusters size) (small : record < 2 ^ 20)
    (inside : record * 128 < size) (enough : 128 < rounds) :
    ∃ fcb' b', dReadSeq rounds fcb b = some ((0, fcb'), b') ∧
      b'.dma = some (fileRecord (m.bytesAt disk clusters 0 size) record) ∧
      Reading m disk clusters size ((record + 1) % 2 ^ 20) fcb' b' := by
  obtain ⟨idx, resolved, inUse, first, fileSize⟩ := reading.handle
  obtain ⟨buf, dma⟩ := reading.dma
  obtain ⟨rfl, rfl⟩ := And.intro reading.m reading.disk
  have byteOff : u32 (record * 128) = record * 128 := u32_of_lt (by omega)
  have noDma : ¬ b.dma.isNone = true := by simp [dma]
  obtain ⟨fp₁, d₁, fp₂, d₂, seek, read, same, step⟩ :=
    seekRead_run reading.ready reading.secOk (by rwa [fileSize]) inUse first
      (by rwa [fileSize]) enough
  rw [fileSize] at read
  obtain ⟨b₁, sought, called₁⟩ : ∃ b₁,
      callFile idx (fun fp => fatFseek fp (record * 128)) b = some (0, b₁) ∧
        Called idx b b₁ fp₁ d₁ := callFile_run seek
  rw [← called₁.file, ← called₁.fat] at read
  obtain ⟨b₂, delivered, called₂⟩ := callFread_run read
  have positive : ¬ ((min 128 (size - record * 128) : Nat) : Int) ≤ 0 := by omega
  refine ⟨setPosition fcb (record + 1), { b₂ with
    dma := b₂.dma.map (padRecord · (min 128 (size - record * 128) : Nat)
      (b.fat.m.bytesAt b.fat.disk clusters (record * 128) (min 128 (size - record * 128)))) },
    ?_, ?_, ?_⟩
  · rw [dReadSeq, Prog.get_bind_run, resolved]
    dsimp only
    rw [Prog.get_bind_run, if_neg noDma, reading.position, byteOff, fileSize,
      if_neg (Nat.not_le.mpr inside), Prog.bind_eq_of_run sought, if_neg (by decide),
      Prog.bind_eq_of_run delivered]
    dsimp only
    rw [deliver, Prog.modify_bind_run, if_neg positive]
    rfl
  · rw [called₂.dma, called₁.dma, dma, Option.map_some]
    exact congrArg some (padRecord_eq rfl inside)
  · have resolves : b₂.resolveFcb (setPosition fcb (record + 1)) = some idx := by
      rw [resolveFcb_congr fun k small => get_setPosition_priv fcb (record + 1) small,
        called₂.resolves, called₁.resolves, resolved]
    exact {
      ready := by
        show Ready b₂.fat
        rw [called₂.fat]
        exact step.ready reading.ready
      secOk := by
        show b₂.fat.SecOk
        rw [called₂.fat]
        exact step.secOk
      m := (congrArg Driver.m called₂.fat).trans step.m
      disk := (congrArg Driver.disk called₂.fat).trans step.disk
      dma := by
        rw [called₂.dma, called₁.dma, dma]
        exact ⟨_, rfl⟩
      handle := by
        refine ⟨idx, resolves, ?_, ?_, ?_⟩
        · show (b₂.fhandles idx).file.inUse = true
          rw [called₂.file, same.inUse, inUse]
        · show (b₂.fhandles idx).file.firstClus = clusters.getD 0 0
          rw [called₂.file, same.firstClus, first]
        · show (b₂.fhandles idx).file.fileSize = size
          rw [called₂.file, same.fileSize, fileSize]
      position := position_setPosition fcb (record + 1) }

/-- The next `count` reads deliver the records from number `k` on, and report the end of
the file behind the last one. -/
def Delivers (rounds : Nat) (contents : List UInt8) : Nat → Nat → Fcb → Kernel → Prop
  | 0, _, _, _ => True
  | count + 1, k, fcb, b => ∃ code fcb' b', dReadSeq rounds fcb b = some ((code, fcb'), b') ∧
      (if k < (contents.length + 127) / 128
        then code = 0 ∧ b'.dma = some (fileRecord contents k)
        else code ≠ 0) ∧
      Delivers rounds contents count (k + 1) fcb' b'

variable {rounds record k n : Nat} {fcb : Fcb} {b : Kernel}

/-- Reading on from record `k` of a file of less than `2 ^ 20` records. -/
theorem delivers_of_reading (file : FileOnDisk m disk clusters size) (enough : 128 < rounds)
    (few : (size + 127) / 128 < 2 ^ 20)
    (reading : Reading m disk clusters size (min k ((size + 127) / 128)) fcb b) (count : Nat) :
    Delivers rounds (m.bytesAt disk clusters 0 size) count k fcb b := by
  induction count generalizing k fcb b with
  | zero => trivial
  | succ count ih =>
      rw [Delivers, Mount.length_bytesAt]
      by_cases inside : k < (size + 127) / 128
      · rw [Nat.min_eq_left (Nat.le_of_lt inside)] at reading
        obtain ⟨fcb', b', run, delivered, next⟩ :=
          dReadSeq_record reading file (by omega) (by omega) enough
        refine ⟨0, fcb', b', run, ?_, ih ?_⟩
        · rw [if_pos inside]
          exact ⟨rfl, delivered⟩
        · have following : min (k + 1) ((size + 127) / 128) = (k + 1) % 2 ^ 20 := by omega
          rwa [following]
      · have run : dReadSeq rounds fcb b = some ((1, fcb), b) :=
          dReadSeq_end reading (by omega) (by omega)
        refine ⟨1, fcb, b, run, ?_, ih ?_⟩
        · rw [if_neg inside]
          decide
        · have following : min (k + 1) ((size + 127) / 128) = min k ((size + 127) / 128) := by
            omega
          rwa [following]

theorem not_delivers_of_end {contents : List UInt8} {fcb' : Fcb} {b' : Kernel}
    (read : dReadSeq rounds fcb b = some ((1, fcb'), b'))
    (inside : k < (contents.length + 127) / 128) :
    ¬ Delivers rounds contents (n + 1) k fcb b := by
  rintro ⟨code, fcb₁, b₁, run, result, -⟩
  rw [read] at run
  simp only [Option.some.injEq, Prod.mk.injEq] at run
  obtain ⟨⟨rfl, -⟩, -⟩ := run
  rw [if_pos inside] at result
  exact absurd result.1 (by decide)

/-- A reader that is ahead of its count reports the end too early. -/
theorem not_delivers_of_ahead (file : FileOnDisk m disk clusters size) (enough : 128 < rounds)
    (few : (size + 127) / 128 < 2 ^ 20) (reading : Reading m disk clusters size record fcb b)
    (rest : record + n = (size + 127) / 128) (ahead : k < record) :
    ¬ Delivers rounds (m.bytesAt disk clusters 0 size) (n + 1) k fcb b := by
  induction n generalizing k record fcb b with
  | zero =>
      refine not_delivers_of_end (dReadSeq_end reading (by omega) (by omega)) ?_
      rw [Mount.length_bytesAt]
      omega
  | succ n ih =>
      rintro ⟨code, fcb', b', run, -, delivers⟩
      obtain ⟨fcb₁, b₁, run₁, -, reading₁⟩ :=
        dReadSeq_record reading file (by omega) (by omega) enough
      rw [run₁] at run
      simp only [Option.some.injEq, Prod.mk.injEq] at run
      obtain ⟨⟨-, rfl⟩, rfl⟩ := run
      rw [Nat.mod_eq_of_lt (by omega)] at reading₁
      exact ih reading₁ (by omega) (by omega) delivers

/-- In a file of `2 ^ 20` records or more the reader starts over and never ends. -/
theorem not_delivers_of_many (file : FileOnDisk m disk clusters size) (enough : 128 < rounds)
    (many : 2 ^ 20 ≤ (size + 127) / 128) (reading : Reading m disk clusters size record fcb b)
    (small : record < 2 ^ 20) (rest : k + n = (size + 127) / 128) :
    ¬ Delivers rounds (m.bytesAt disk clusters 0 size) (n + 1) k fcb b := by
  induction n generalizing k record fcb b with
  | zero =>
      rintro ⟨code, fcb', b', run, result, -⟩
      obtain ⟨fcb₁, b₁, run₁, -⟩ := dReadSeq_record reading file small (by omega) enough
      rw [run₁] at run
      simp only [Option.some.injEq, Prod.mk.injEq] at run
      obtain ⟨⟨rfl, -⟩, -⟩ := run
      rw [Mount.length_bytesAt, if_neg (by omega)] at result
      exact result rfl
  | succ n ih =>
      rintro ⟨code, fcb', b', run, -, delivers⟩
      obtain ⟨fcb₁, b₁, run₁, -, reading₁⟩ :=
        dReadSeq_record reading file small (by omega) enough
      rw [run₁] at run
      simp only [Option.some.injEq, Prod.mk.injEq] at run
      obtain ⟨⟨-, rfl⟩, rfl⟩ := run
      exact ih reading₁ (Nat.mod_lt _ (by decide)) (by omega) delivers

theorem dOpen_some {b₀ b₁ : Kernel} {fcb₁ : Fcb} (mounts : ensureMounted b = some (true, b₀))
    (opened : dOpen rounds fcb b = some ((0, fcb₁), b₁)) :
    ∃ idx, openHandle fcb (fatFopen rounds) b₀ = some (some idx, b₁) ∧
      fcb₁ = openExtent (stashHandle fcb idx (b₁.fhandles idx).generation)
        (recordCount (b₁.fhandles idx).file.fileSize) := by
  rw [dOpen, Prog.bind_eq_of_run mounts, if_neg (by decide)] at opened
  exact openHandle_then (fun h => recordCount h.file.fileSize) opened

/-- Opening a file leaves the disk as it is. -/
theorem readStep_of_dOpen {b₀ b₁ : Kernel} {fcb₁ : Fcb}
    (mounts : ensureMounted b = some (true, b₀)) (good : Good b₀.fat) (secOk : b₀.fat.SecOk)
    (opened : dOpen rounds fcb b = some ((0, fcb₁), b₁)) : ReadStep b₀.fat b₁.fat := by
  obtain ⟨idx, handle, -⟩ := dOpen_some mounts opened
  obtain ⟨fp₀, fp', d, inner, fat, -⟩ := openHandle_some handle
  rw [fat]
  exact (fatFopen_opened good secOk inner).2

theorem reading_of_dOpen {b₀ b₁ : Kernel} {fcb₁ : Fcb} {fp : FatFile} {buf : Buffer 128}
    (mounts : ensureMounted b = some (true, b₀)) (ready : Ready b₀.fat) (secOk : b₀.fat.SecOk)
    (dma : b₀.dma = some buf) (opened : dOpen rounds fcb b = some ((0, fcb₁), b₁))
    (named : b₁.fileOf fcb₁ = some fp) (first : fp.firstClus = clusters.getD 0 0) :
    Reading b₀.fat.m b₀.fat.disk clusters fp.fileSize
      (recordCount fp.fileSize / 128 * 128 % 2 ^ 20) fcb₁ b₁ := by
  have step := readStep_of_dOpen mounts ready.good secOk opened
  obtain ⟨idx, handle, rfl⟩ := dOpen_some mounts opened
  obtain ⟨fp₀, fp', d, inner, -, dma', inUse, handled⟩ := openHandle_some handle
  obtain ⟨opens, -⟩ := fatFopen_opened ready.good secOk inner
  have resolved := resolveFcb_openExtent inUse fcb
    (recordCount (b₁.fhandles idx).file.fileSize)
  rw [Kernel.fileOf, resolved, Option.map_some, handled] at named
  obtain rfl := Option.some.inj named
  exact {
    ready := step.ready ready
    secOk := step.secOk
    m := step.m
    disk := step.disk
    dma := ⟨buf, dma'.trans dma⟩
    handle := by
      refine ⟨idx, resolved, ?_, ?_, ?_⟩ <;> rw [handled]
      · exact opens
      · exact first
    position := by
      rw [handled]
      exact position_openExtent _ _ }

end Reading

section OneFile

/-- A volume of one cluster of 64 sectors, which the file `A` has. -/
def fileVolume (size : Nat) : Nat → Sector
  | 1 | 2 => Buffer.zero.blit 0 [0xF8, 0xFF, 0xFF, 0xFF, 0x0F]
  | 3 => (((Buffer.zero.blit 0 (65 :: List.replicate 10 32)).blit 11 [0x20]).blit 26 [2, 0]).blit
      28 (Buffer.leBytes 4 size)
  | _ => Buffer.zero

/-- What `fat_mount` finds on the volume. -/
def fileMount : Mount :=
  { valid := true, type := .fat12, bytesPerSec := 512, secPerClus := 64, rsvdSec := 1
    numFats := 2, rootEntCount := 16, totalSec := 68, fatSec := 1, rootClus := 0
    firstDataSec := 4, firstRootSec := 3, clusterCount := 1 }

def fileKernel (size : Nat) : Kernel :=
  { fat := { Driver.initial (fileVolume size) 68 with m := fileMount }
    mounted := true, curDrive := 0, curUser := 0, curSubpath := []
    fhandles := fun _ => { inUse := false, generation := 0, file := FatFile.unused }
    nextGeneration := 1, dma := some Buffer.zero }

/-- A control block that names the file `A`. -/
def fcbA : Fcb := Buffer.zero.blit fcbName (65 :: List.replicate 10 32)

theorem fileMount_sane : fileMount.Sane 68 where
  valid := rfl
  capacity_lt := by decide
  reserved := by decide
  fats := by decide
  sectors := by decide
  sectors_pow := ⟨6, by decide, rfl⟩
  rootStart := rfl
  dataStart := rfl
  rootWhole := rfl
  dataFits := by decide
  covers := by decide
  type_eq := rfl
  count_le := by decide
  mirrors := fun _ _ _ => rfl
  fixedRoot := by decide
  rootClus := by decide

theorem fileKernel_ready (size : Nat) : Ready (fileKernel size).fat where
  good := Idle.good ⟨⟨⟨rfl, rfl⟩, rfl⟩, rfl⟩
  sane := fileMount_sane

/-- The file `A` is opened, and its first record is read. -/
def openAndRead (size : Nat) : Option (Nat × Option (Nat × Nat) × Nat) := do
  let ((opened, fcb), b) ← dOpen 200 fcbA (fileKernel size)
  let ((code, _), _) ← dReadSeq 200 fcb b
  pure (opened, (b.fileOf fcb).map fun fp => (fp.fileSize, fp.firstClus), code)

theorem openAndRead_some {size code : Nat}
    (run : openAndRead size = some (0, some (size, 2), code)) :
    ∃ fcb b fp fcb' b', dOpen 200 fcbA (fileKernel size) = some ((0, fcb), b) ∧
      b.fileOf fcb = some fp ∧ fp.fileSize = size ∧ fp.firstClus = 2 ∧
      dReadSeq 200 fcb b = some ((code, fcb'), b') := by
  obtain ⟨⟨⟨opened, fcb⟩, b⟩, open_run, run⟩ := Option.bind_eq_some_iff.mp run
  obtain ⟨⟨⟨read, fcb'⟩, b'⟩, read_run, run⟩ := Option.bind_eq_some_iff.mp run
  simp only [Option.pure_def, Option.some.injEq, Prod.mk.injEq] at run
  obtain ⟨rfl, named, rfl⟩ := run
  obtain ⟨fp, named, fields⟩ := Option.map_eq_some_iff.mp named
  obtain ⟨size_eq, first⟩ := Prod.mk.inj fields
  exact ⟨fcb, b, fp, fcb', b', open_run, named, size_eq, first, read_run⟩

theorem fiveBytes_run : openAndRead 5 = some (0, some (5, 2), 0) := by decide +kernel

theorem extent_run : openAndRead 16384 = some (0, some (16384, 2), 1) := by decide +kernel

theorem fileVolume_onDisk {size : Nat} (fits : size ≤ 64 * 512)
    (ends : fileMount.mark ≤ fileMount.link (fileVolume size) 2) :
    FileOnDisk fileMount (fileVolume size) [2] size where
  chain := {
    isCluster := by
      intro k inside
      obtain rfl : k = 0 := by simpa using inside
      exact ⟨by decide, by decide⟩
    linked := fun k inside => by simp at inside
    last := by
      intro k last
      obtain rfl : k = 0 := by simpa using last
      exact ends }
  fits := fits
  size_lt := by omega

end OneFile

end Ncd15.Bdos
