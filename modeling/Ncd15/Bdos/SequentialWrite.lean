import Ncd15.Bdos.SequentialRead
import Ncd15.Fat.RecordWrite

/-!
# Sequential writing

`d_write_seq` seeks to the record it is about to write.  Behind the last record of a
file that fills its cluster the seek fails, so that a file written this way never gets
a second cluster.
-/

namespace Ncd15.Bdos

open Ncd15.Library Ncd15.Fat

section Writing

variable {m : Mount} {capacity rounds : Nat} {raw contents : List UInt8} {fcb : Fcb} {b : Kernel}

/-- The file of the control block has these contents, and the next record to be written
is the one behind them. -/
structure Writing (m : Mount) (capacity : Nat) (raw contents : List UInt8) (fcb : Fcb)
    (b : Kernel) : Prop where
  handle : ∃ idx, b.resolveFcb fcb = some idx ∧
    Appending m capacity raw contents (b.fhandles idx).file b.fat
  records : contents.length = position fcb * 128

theorem get_blit_rc (count : UInt8) {k : Nat} (other : k ≠ fcbRc) :
    (fcb.blit fcbRc [count]).get k = fcb.get k := by
  rw [Buffer.get_blit_singleton _ (by decide), if_neg other]

theorem position_blit_rc (count : UInt8) : position (fcb.blit fcbRc [count]) = position fcb := by
  unfold position
  rw [get_blit_rc count (by decide), get_blit_rc count (by decide), get_blit_rc count (by decide)]

/-- The control block after a record has been written. -/
def advanced (fcb : Fcb) (count : UInt8) : Fcb :=
  (setPosition fcb (position fcb + 1)).blit fcbRc [count]

theorem resolveFcb_advanced (count : UInt8) :
    b.resolveFcb (advanced fcb count) = b.resolveFcb fcb := by
  refine resolveFcb_congr fun k small => ?_
  have other : fcbPriv + k ≠ fcbRc := by
    unfold fcbPriv fcbRc
    omega
  rw [advanced, get_blit_rc count other, get_setPosition_priv _ _ small]

theorem position_advanced (count : UInt8) (few : position fcb < 2 ^ 20 - 1) :
    position (advanced fcb count) = position fcb + 1 := by
  rw [advanced, position_blit_rc, position_setPosition]
  exact Nat.mod_eq_of_lt (by omega)

theorem flushHandle_run {idx : Fin fatMaxOpen} {code : Int} {d : Driver}
    (run : fatFflush (b.fhandles idx).file b.fat = some (code, d)) :
    flushHandle idx b = some ((), { b with fat := d }) := by
  rw [flushHandle, Prog.get_bind_run]
  have call : callFat (fatFflush (b.fhandles idx).file) b = some (code, { b with fat := d }) := by
    rw [callFat, run]
    rfl
  exact Prog.bind_eq_of_run call

theorem Writing.position_lt (writing : Writing m capacity raw contents fcb b)
    (fits : contents.length ≤ m.secPerClus * 512) : position fcb < 2 ^ 20 - 1 := by
  obtain ⟨⟨idx, -, appending⟩, records⟩ := writing
  have sane := appending.free.1.sane
  rw [appending.here] at sane
  obtain ⟨k, small, power⟩ := sane.sectors_pow
  have bound : m.secPerClus ≤ 2 ^ 7 := power ▸ Nat.pow_le_pow_right (by decide) small
  omega

/-- A record that still fits in the cluster. -/
theorem dWriteSeq_record {buf : Buffer 128} (writing : Writing m capacity raw contents fcb b)
    (dma : b.dma = some buf)
    (space : contents = [] → ∃ c, m.IsCluster c ∧ m.link b.fat.disk c = 0)
    (fits : contents.length + 128 ≤ m.secPerClus * 512) (enough : 1 < rounds) :
    ∃ fcb' b', dWriteSeq rounds fcb b = some ((0, fcb'), b') ∧
      Writing m capacity raw (contents ++ buf.slice 0 128) fcb' b' := by
  have few := writing.position_lt (by omega)
  obtain ⟨⟨idx, resolves, appending⟩, records⟩ := writing
  have bytes : (buf.slice 0 128).length = 128 := Buffer.length_slice buf 0 128
  have nonempty : buf.slice 0 128 ≠ [] := List.ne_nil_of_length_pos (by omega)
  have byteOff : u32 (position fcb * 128) = contents.length := by
    rw [← records, u32_of_lt (by omega)]
  obtain ⟨b₁, seek, called₁⟩ := callFile_run (b := b) (f := fun fp => fatFseek fp contents.length)
    (fatFseek_end appending (by omega))
  obtain ⟨fp', d₁, d₂, write, flush, appended⟩ :=
    append_run appending space nonempty (by omega) (by omega) enough
  rw [← called₁.fat, ← called₁.file, bytes] at write
  obtain ⟨b₂, written, called₂⟩ := callFile_run
    (f := fun fp => fatFwrite rounds fp (buf.slice 0 128)) write
  rw [← called₂.file, ← called₂.fat] at flush
  refine ⟨advanced fcb (UInt8.ofNat (recordCount (b₂.fhandles idx).file.fileSize % 128)),
    { b₂ with fat := d₂ }, ?_, ⟨idx, ?_, ?_⟩, ?_⟩
  · rw [dWriteSeq, Prog.get_bind_run, resolves]
    dsimp only
    rw [Prog.get_bind_run, dma]
    dsimp only
    rw [byteOff, Prog.bind_eq_of_run seek, if_neg (by decide), Prog.bind_eq_of_run written,
      if_neg (by decide), Prog.get_bind_run, Prog.bind_eq_of_run (flushHandle_run flush)]
    rfl
  · have same : b₂.resolveFcb fcb = some idx := by
      rw [called₂.resolves, called₁.resolves, resolves]
    rw [resolveFcb_advanced]
    exact same
  · change Appending m capacity raw _ (b₂.fhandles idx).file d₂
    rw [called₂.file]
    exact appended
  · rw [List.length_append, bytes, position_advanced _ few, records]
    omega

/-- The record behind a full cluster. -/
theorem dWriteSeq_full {buf : Buffer 128} (writing : Writing m capacity raw contents fcb b)
    (dma : b.dma = some buf) (full : contents.length = m.secPerClus * 512) :
    ∃ b', dWriteSeq rounds fcb b = some ((0xFF, fcb), b') := by
  have few := writing.position_lt (by omega)
  obtain ⟨⟨idx, resolves, appending⟩, records⟩ := writing
  have byteOff : u32 (position fcb * 128) = contents.length := by
    rw [← records, u32_of_lt (by omega)]
  obtain ⟨fp', d', seek⟩ := fatFseek_full appending full
  obtain ⟨b₁, called, -⟩ := callFile_run (b := b) (f := fun fp => fatFseek fp contents.length) seek
  refine ⟨b₁, ?_⟩
  rw [dWriteSeq, Prog.get_bind_run, resolves]
  dsimp only
  rw [Prog.get_bind_run, dma]
  dsimp only
  rw [byteOff, Prog.bind_eq_of_run called, if_pos (by decide)]
  rfl

end Writing

section Runs

/-- Every record is accepted by `d_write_seq`, one after the other, from the control
block and the state on the left to those on the right. -/
def Accepts (rounds : Nat) : List (Buffer 128) → Fcb → Kernel → Fcb → Kernel → Prop
  | [], fcb, b, fcb', b' => fcb' = fcb ∧ b' = b
  | buf :: rest, fcb, b, fcb', b' => ∃ fcb₁ b₁,
      dWriteSeq rounds fcb { b with dma := some buf } = some ((0, fcb₁), b₁) ∧
        Accepts rounds rest fcb₁ b₁ fcb' b'

/-- The records as one file. -/
def joined (records : List (Buffer 128)) : List UInt8 :=
  records.flatMap fun buf => buf.slice 0 128

/-- The directory entry of the handle has this name, and the file in it these contents. -/
structure Holds (raw contents : List UInt8) (fp : FatFile) (d : Driver) : Prop where
  entry : EntryIs (d.disk fp.slot.lba) fp.slot.off raw fp.firstClus contents.length
  file : ∃ clusters, clusters.getD 0 0 = fp.firstClus ∧
    FileOnDisk d.m d.disk clusters contents.length ∧
    d.m.bytesAt d.disk clusters 0 contents.length = contents

/-- All records are accepted, and the file consists of them. -/
def WritesBack (rounds : Nat) (raw : List UInt8) (records : List (Buffer 128)) (fcb : Fcb)
    (b : Kernel) : Prop :=
  ∃ fcb' b' fp, Accepts rounds records fcb b fcb' b' ∧ b'.fileOf fcb' = some fp ∧
    Holds raw (joined records) fp b'.fat

variable {m : Mount} {capacity rounds : Nat} {raw contents : List UInt8} {fcb : Fcb} {b : Kernel}
  {records : List (Buffer 128)}

theorem Writing.withDma (writing : Writing m capacity raw contents fcb b) (buf : Buffer 128) :
    Writing m capacity raw contents fcb { b with dma := some buf } :=
  ⟨writing.handle, writing.records⟩

theorem accepts_of_fits (writing : Writing m capacity raw contents fcb b)
    (space : contents = [] → records ≠ [] → ∃ c, m.IsCluster c ∧ m.link b.fat.disk c = 0)
    (fits : contents.length + records.length * 128 ≤ m.secPerClus * 512) (enough : 1 < rounds) :
    ∃ fcb' b', Accepts rounds records fcb b fcb' b' ∧
      Writing m capacity raw (contents ++ joined records) fcb' b' := by
  induction records generalizing contents fcb b with
  | nil =>
      refine ⟨fcb, b, ⟨rfl, rfl⟩, ?_⟩
      rwa [joined, List.flatMap_nil, List.append_nil]
  | cons buf rest ih =>
      rw [List.length_cons] at fits
      obtain ⟨fcb₁, b₁, run, writing₁⟩ := dWriteSeq_record (writing.withDma buf) rfl
        (fun empty => space empty (List.cons_ne_nil buf rest)) (by omega) enough
      have bytes : (buf.slice 0 128).length = 128 := Buffer.length_slice buf 0 128
      have started : contents ++ buf.slice 0 128 ≠ [] :=
        List.ne_nil_of_length_pos (by rw [List.length_append]; omega)
      obtain ⟨fcb', b', accepts, writing'⟩ := ih writing₁ (fun empty => absurd empty started)
        (by rw [List.length_append]; omega)
      refine ⟨fcb', b', ⟨fcb₁, b₁, run, accepts⟩, ?_⟩
      rwa [List.append_assoc] at writing'

/-- One record too many. -/
theorem not_accepts_of_long {room : Nat} (writing : Writing m capacity raw contents fcb b)
    (space : contents = [] → records ≠ [] → ∃ c, m.IsCluster c ∧ m.link b.fat.disk c = 0)
    (left : contents.length + room * 128 = m.secPerClus * 512) (long : room < records.length)
    (enough : 1 < rounds) {fcb' : Fcb} {b' : Kernel} :
    ¬ Accepts rounds records fcb b fcb' b' := by
  induction records generalizing contents fcb b room with
  | nil => exact absurd long (Nat.not_lt_zero room)
  | cons buf rest ih =>
      rintro ⟨fcb₁, b₁, run, accepts⟩
      cases room with
      | zero =>
          obtain ⟨b₂, fails⟩ := dWriteSeq_full (writing.withDma buf) rfl (by omega)
          rw [fails] at run
          simp only [Option.some.injEq, Prod.mk.injEq] at run
          exact absurd run.1.1 (by decide)
      | succ room =>
          obtain ⟨fcb₂, b₂, run₂, writing₂⟩ := dWriteSeq_record (writing.withDma buf) rfl
            (fun empty => space empty (List.cons_ne_nil buf rest)) (by omega) enough
          have bytes : (buf.slice 0 128).length = 128 := Buffer.length_slice buf 0 128
          have started : contents ++ buf.slice 0 128 ≠ [] :=
            List.ne_nil_of_length_pos (by rw [List.length_append]; omega)
          rw [run₂] at run
          simp only [Option.some.injEq, Prod.mk.injEq, true_and] at run
          obtain ⟨rfl, rfl⟩ := run
          exact ih writing₂ (fun empty => absurd empty started)
            (by rw [List.length_append]; omega) (Nat.lt_of_succ_lt_succ long) accepts

/-- A file that is being written holds its contents. -/
theorem Writing.holds (writing : Writing m capacity raw contents fcb b)
    (fits : contents.length ≤ m.secPerClus * 512) :
    ∃ fp, b.fileOf fcb = some fp ∧ Holds raw contents fp b.fat := by
  obtain ⟨⟨idx, resolves, appending⟩, -⟩ := writing
  refine ⟨(b.fhandles idx).file, by rw [Kernel.fileOf, resolves]; rfl, appending.entry, ?_⟩
  obtain ⟨rfl, rfl, free, -, -, -, -, data⟩ := appending
  by_cases empty : contents = []
  · subst empty
    rw [if_pos rfl] at data
    refine ⟨[], data.symm, ⟨⟨?_, ?_, ?_⟩, Nat.zero_le _, by decide⟩, rfl⟩
    · exact fun k inside => absurd inside (Nat.not_lt_zero k)
    · exact fun k inside => absurd inside (Nat.not_lt_zero _)
    · exact fun k last => absurd last (Nat.succ_ne_zero k)
  · rw [if_neg empty] at data
    obtain ⟨k, small, power⟩ := free.1.sane.sectors_pow
    have bound : b.fat.m.secPerClus ≤ 2 ^ 7 := power ▸ Nat.pow_le_pow_right (by decide) small
    refine ⟨[(b.fhandles idx).file.firstClus], rfl, ⟨⟨?_, ?_, ?_⟩, ?_, by omega⟩, data.stored⟩
    · intro k inside
      obtain rfl : k = 0 := by simpa using inside
      exact data.isCluster
    · exact fun k inside => by simp at inside
    · intro k last
      obtain rfl : k = 0 := by simpa using last
      exact data.last
    · simpa using fits

theorem writing_of_dMake {b₀ b₁ : Kernel} {fcb₁ : Fcb} (mounts : ensureMounted b = some (true, b₀))
    (ready : Ready b₀.fat) (clear : CreateClear rounds (b₀.fcbToPath fcb) b₀.fat)
    (apart : b₀.fat.m.RootApart b₀.fat.disk)
    (made : dMake rounds fcb b = some ((0, fcb₁), b₁)) :
    Writing b₀.fat.m b₀.fat.blk.capacity (buildRawName (stripSlash (b₀.fcbToPath fcb))) []
      fcb₁ b₁ := by
  rw [dMake, Prog.bind_eq_of_run mounts, if_neg (by decide)] at made
  obtain ⟨idx, handle, rfl⟩ := openHandle_then (fun _ => 0) made
  obtain ⟨fp₀, fp, d, inner, fat, -, inUse, file⟩ := openHandle_some handle
  have created := fatFcreate_created ready clear apart inner
  refine ⟨⟨idx, resolveFcb_openExtent inUse fcb 0, ?_⟩, ?_⟩
  · rw [file, fat]
    exact created.appending
  · rw [position_openExtent]
    rfl

end Runs

section EmptyVolume

/-- An empty volume with 36 clusters of one sector. -/
def emptyVolume : Nat → Sector
  | 1 | 2 => Buffer.zero.blit 0 [0xF8, 0xFF, 0xFF]
  | _ => Buffer.zero

def emptyMount : Mount :=
  { fileMount with secPerClus := 1, totalSec := 40, clusterCount := 36 }

def emptyKernel : Kernel :=
  { fileKernel 0 with fat := { Driver.initial emptyVolume 40 with m := emptyMount } }

theorem emptyMount_sane : emptyMount.Sane 40 where
  valid := rfl
  capacity_lt := by decide
  reserved := by decide
  fats := by decide
  sectors := by decide
  sectors_pow := ⟨0, by decide, rfl⟩
  rootStart := rfl
  dataStart := rfl
  rootWhole := rfl
  dataFits := by decide
  covers := by decide
  type_eq := rfl
  count_le := by decide
  mirrors := fun _ _ _ => rfl
  fixedRoot := by decide
  rootClus := by decide

theorem emptyKernel_ready : Ready emptyKernel.fat where
  good := Idle.good ⟨⟨⟨rfl, rfl⟩, rfl⟩, rfl⟩
  sane := emptyMount_sane

theorem emptyKernel_apart : emptyKernel.fat.m.RootApart emptyKernel.fat.disk where
  used := fun fat32 => FatType.noConfusion fat32
  apart := fun fat32 => FatType.noConfusion fat32

/-- The file `A` is created, and clusters 2 and 3 are free. -/
theorem make_run : (dMake 200 fcbA emptyKernel).map (fun result => (result.1.1,
    result.2.fat.m.clusterCount, result.2.fat.m.link result.2.fat.disk 2,
    result.2.fat.m.link result.2.fat.disk 3)) = some (0, 36, 0, 0) := by
  decide +kernel

theorem emptyKernel_made : ∃ fcb b, dMake 200 fcbA emptyKernel = some ((0, fcb), b) ∧
    ∀ c, c = 2 ∨ c = 3 → b.fat.m.IsCluster c ∧ b.fat.m.link b.fat.disk c = 0 := by
  obtain ⟨⟨⟨code, fcb⟩, b⟩, made, ends⟩ := Option.map_eq_some_iff.mp make_run
  simp only [Prod.mk.injEq] at ends
  obtain ⟨rfl, count, second, third⟩ := ends
  refine ⟨fcb, b, made, ?_⟩
  rintro c (rfl | rfl)
  · exact ⟨⟨by decide, by rw [count]; decide⟩, second⟩
  · exact ⟨⟨by decide, by rw [count]; decide⟩, third⟩

/-- The packed name of the file that is created. -/
def rawA : List UInt8 := buildRawName (stripSlash (emptyKernel.fcbToPath fcbA))

end EmptyVolume

end Ncd15.Bdos
