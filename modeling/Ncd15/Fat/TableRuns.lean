import Ncd15.Fat.TableImage

/-!
# Reading and writing entries on a volume

On a well-formed volume `fat_next_clus` reports the entry of the first copy of the
table, and `fat_set_entry` replaces that entry in every copy and nothing else.
-/

namespace Ncd15.Fat

open Ncd15.Library

section Copies

/-- The first copy of the table as one run of bytes. -/
def Mount.table (m : Mount) (disk : Nat → Sector) : Buffer (m.fatSec * 512) :=
  fun i => (disk (m.rsvdSec + i.val / 512)).get (i.val % 512)

/-- All copies are equal. -/
def Mount.Mirrored (m : Mount) (disk : Nat → Sector) : Prop :=
  ∀ k, k < m.numFats → ∀ s, s < m.fatSec →
    disk (m.rsvdSec + k * m.fatSec + s) = disk (m.rsvdSec + s)

/-- The sectors that hold no copy of the table. -/
def Mount.Outside (m : Mount) (lba : Nat) : Prop :=
  lba < m.rsvdSec ∨ m.rsvdSec + m.numFats * m.fatSec ≤ lba

variable {m : Mount} {disk disk' : Nat → Sector} {k : Nat}

theorem get_table {s j : Nat} (inTable : s < m.fatSec) (inSector : j < 512) :
    (m.table disk).get (s * 512 + j) = (disk (m.rsvdSec + s)).get j := by
  have inside : s * 512 + j < m.fatSec * 512 := by omega
  have quotient : (s * 512 + j) / 512 = s := by omega
  have rest : (s * 512 + j) % 512 = j := by omega
  simp [Buffer.get, inside, Mount.table, quotient, rest]

theorem table_congr
    (same : ∀ s, s < m.fatSec → disk' (m.rsvdSec + s) = disk (m.rsvdSec + s)) :
    m.table disk' = m.table disk := by
  funext i
  have bound := i.isLt
  exact congrArg (fun s : Sector => s.get (i.val % 512)) (same (i.val / 512) (by omega))

/-- The position of a sector in the copies determines the copy. -/
theorem copy_inj {k' s s' : Nat} (inTable : s < m.fatSec) (inTable' : s' < m.fatSec)
    (same : m.rsvdSec + k * m.fatSec + s = m.rsvdSec + k' * m.fatSec + s') :
    k = k' ∧ s = s' := by
  have sum : s + m.fatSec * k = s' + m.fatSec * k' := by
    rw [Nat.mul_comm m.fatSec, Nat.mul_comm m.fatSec]
    omega
  have quotient := congrArg (· / m.fatSec) sum
  have rest := congrArg (· % m.fatSec) sum
  have positive : 0 < m.fatSec := by omega
  simp only [Nat.add_mul_div_left _ _ positive, Nat.div_eq_of_lt inTable,
    Nat.div_eq_of_lt inTable', Nat.zero_add, Nat.add_mul_mod_self_left,
    Nat.mod_eq_of_lt inTable, Nat.mod_eq_of_lt inTable'] at quotient rest
  exact ⟨quotient, rest⟩

theorem first_copy_ne {s s' : Nat} (inTable : s < m.fatSec) (inTable' : s' < m.fatSec)
    (other : 0 < k) : m.rsvdSec + s' ≠ m.rsvdSec + k * m.fatSec + s := by
  intro same
  have zeroth : m.rsvdSec + 0 * m.fatSec + s' = m.rsvdSec + k * m.fatSec + s := by
    simpa using same
  have zero := (copy_inj inTable' inTable zeroth).1
  omega

theorem outside_ne {lba s : Nat} (outside : m.Outside lba) (isCopy : k < m.numFats)
    (inTable : s < m.fatSec) : lba ≠ m.rsvdSec + k * m.fatSec + s := by
  have bound := copy_lt (m := m) isCopy inTable
  unfold Mount.Outside at outside
  omega

/-- A write into a sector of the table is a write into the table. -/
theorem table_blit {s idx : Nat} {bytes : List UInt8} (inTable : s < m.fatSec)
    (fits : idx + bytes.length ≤ 512)
    (stored : disk' (m.rsvdSec + s) = (disk (m.rsvdSec + s)).blit idx bytes)
    (rest : ∀ s', s' < m.fatSec → s' ≠ s → disk' (m.rsvdSec + s') = disk (m.rsvdSec + s')) :
    m.table disk' = (m.table disk).blit (s * 512 + idx) bytes := by
  have whole : s * 512 + idx + bytes.length ≤ m.fatSec * 512 := by omega
  apply Buffer.ext
  intro i inside
  obtain ⟨s', j, inTable', inSector, rfl⟩ :
      ∃ s' j, s' < m.fatSec ∧ j < 512 ∧ i = s' * 512 + j :=
    ⟨i / 512, i % 512, by omega, by omega, by omega⟩
  rw [get_table inTable' inSector]
  by_cases sector : s' = s
  · subst sector
    rw [stored]
    by_cases within : idx ≤ j ∧ j < idx + bytes.length
    · have after : s' * 512 + idx ≤ s' * 512 + j := Nat.add_le_add_left within.1 _
      have before : s' * 512 + j < s' * 512 + idx + bytes.length := by
        rw [Nat.add_assoc]
        exact Nat.add_lt_add_left within.2 _
      rw [Buffer.get_blit_of_mem _ within.1 within.2 fits,
        Buffer.get_blit_of_mem _ after before whole, Nat.add_sub_add_left]
    · have apart : j < idx ∨ idx + bytes.length ≤ j := by omega
      have apart' : s' * 512 + j < s' * 512 + idx ∨
          s' * 512 + idx + bytes.length ≤ s' * 512 + j :=
        apart.imp (fun before => Nat.add_lt_add_left before _)
          fun after => by rw [Nat.add_assoc]; exact Nat.add_le_add_left after _
      rw [Buffer.get_blit_of_disjoint _ apart, Buffer.get_blit_of_disjoint _ apart',
        get_table inTable' inSector]
  · rw [rest s' inTable' sector, Buffer.get_blit_of_disjoint _ (by omega),
      get_table inTable' inSector]

theorem table_update_blit {s idx : Nat} {bytes : List UInt8} (inTable : s < m.fatSec)
    (fits : idx + bytes.length ≤ 512) :
    m.table (Function.update disk (m.rsvdSec + s)
      ((disk (m.rsvdSec + s)).blit idx bytes)) =
      (m.table disk).blit (s * 512 + idx) bytes := by
  refine table_blit inTable fits (Function.update_self ..) fun s' _ other => ?_
  exact Function.update_of_ne (by omega) _ _

theorem loadLe_table {off width : Nat} (inTable : off / 512 < m.fatSec)
    (inSector : off % 512 + width ≤ 512) :
    (disk (m.rsvdSec + off / 512)).loadLe (off % 512) width =
      (m.table disk).loadLe off width := by
  apply Buffer.loadLe_shift
  intro i bound
  rw [← get_table inTable (by omega)]
  congr 1
  omega

theorem get_table_off {off : Nat} (inTable : off / 512 < m.fatSec) :
    (disk (m.rsvdSec + off / 512)).get (off % 512) = (m.table disk).get off := by
  rw [← get_table inTable (Nat.mod_lt _ (by decide))]
  congr 1
  omega

theorem get_table_succ {off : Nat} (inTable : off / 512 < m.fatSec)
    (inSector : off % 512 + 1 < 512) :
    (disk (m.rsvdSec + off / 512)).get (off % 512 + 1) = (m.table disk).get (off + 1) := by
  rw [← get_table inTable inSector]
  congr 1
  omega

theorem get_table_spill {off : Nat} (spill : off / 512 + 1 < m.fatSec)
    (last : off % 512 = 511) :
    (disk (m.rsvdSec + (off / 512 + 1))).get 0 = (m.table disk).get (off + 1) := by
  rw [← get_table spill (by decide)]
  congr 1
  omega

end Copies

section Reading

variable {d : Driver} {c : Nat}

/-- The value `fat_next_clus` reports for an entry. -/
def Mount.next (m : Mount) (disk : Nat → Sector) (clus : Nat) : Nat :=
  chainEnd m.mark (m.entryOf (m.table disk) clus)

/-- The device has the sectors an entry lies in. -/
def Driver.HasEntry (d : Driver) (clus : Nat) : Prop :=
  d.blk.Has (d.m.entryLba clus) ∧
    (d.m.Straddles clus → d.blk.Has (u32 (d.m.entryLba clus + 1)))

/-- The sectors of an entry are on a device that holds the table. -/
theorem Mount.Places.hasEntry {c : Nat} (places : d.m.Places c)
    (table : d.m.rsvdSec + d.m.fatSec ≤ d.blk.capacity) (small : d.blk.capacity < 2 ^ 32) :
    d.HasEntry c := by
  constructor
  · have inTable := places.inTable
    rw [places.entryLba_eq]
    exact ⟨by omega, by omega⟩
  · intro straddles
    have spill := places.spill straddles
    rw [places.succ_eq straddles]
    exact ⟨by omega, by omega⟩

theorem has_entry (sane : d.m.Sane d.blk.capacity) (inRange : c < d.m.clusterCount + 2) :
    d.blk.Has (d.m.rsvdSec + d.m.rawOff c / 512) := by
  have table := copy_lt sane.fats (sane.places inRange).inTable
  have fits := sane.fatSec_le
  exact has_of_lt sane (by omega)

theorem u32_succ (sane : d.m.Sane d.blk.capacity) {s : Nat} (spill : s + 1 < d.m.fatSec) :
    u32 (d.m.rsvdSec + s + 1) = d.m.rsvdSec + (s + 1) := by
  have fits := sane.fatSec_le
  have bound := sane.capacity_lt
  have table := copy_lt sane.fats spill
  exact u32_of_lt (by omega)

theorem has_spill (sane : d.m.Sane d.blk.capacity) {s : Nat} (spill : s + 1 < d.m.fatSec) :
    d.blk.Has (d.m.rsvdSec + (s + 1)) := by
  have fits := sane.fatSec_le
  have table := copy_lt sane.fats spill
  exact has_of_lt sane (by omega)

theorem hasEntry_of_sane (sane : d.m.Sane d.blk.capacity) (inRange : c < d.m.clusterCount + 2) :
    d.HasEntry c := by
  have places := sane.places inRange
  constructor
  · rw [places.entryLba_eq]
    exact has_entry sane inRange
  · intro straddles
    rw [places.succ_eq straddles]
    exact has_spill sane (places.spill straddles)

/-- The shared buffer, while it is valid, holds a sector of the device. -/
def Driver.Cached (d : Driver) : Prop :=
  d.fatBufValid = true → d.blk.Has d.fatBufLba ∧ d.fatWbuf = d.disk d.fatBufLba

theorem Driver.Cached.coherent (cached : d.Cached) : d.Coherent := fun valid => (cached valid).2

/-- A read of the table: the disk and the mount data stay. -/
structure TableRead (d d' : Driver) : Prop where
  blk : d'.blk = d.blk
  m : d'.m = d.m
  coherent : d'.Coherent
  cached : d.Cached → d'.Cached

theorem TableRead.trans {d d' d'' : Driver} (first : TableRead d d') (second : TableRead d' d'') :
    TableRead d d'' :=
  ⟨second.blk.trans first.blk, second.m.trans first.m, second.coherent,
    fun cached => second.cached (first.cached cached)⟩

theorem TableRead.disk {d d' : Driver} (read : TableRead d d') : d'.disk = d.disk :=
  congrArg BlkDev.sec read.blk

theorem TableRead.has {d d' : Driver} {lba : Nat} (read : TableRead d d')
    (has : d.blk.Has lba) : d'.blk.Has lba := by
  rwa [read.blk]

/-- The shared buffer holds these bytes as a sector of the table. -/
structure Driver.Buffered (d : Driver) (lba : Nat) (s : Sector) : Prop where
  valid : d.fatBufValid = true
  place : d.fatBufLba = lba
  bytes : d.fatWbuf = s

theorem readFatSec_then_run (coherent : d.Coherent) {lba : Nat} (has : d.blk.Has lba) {α : Type}
    (failed : α) (next : DriverM α) :
    ∃ d', TableRead d d' ∧ d'.Buffered lba (d.disk lba) ∧
      (do if !(← readFatSec lba) then pure failed else next) d = next d' := by
  by_cases hit : d.fatBufValid ∧ d.fatBufLba = lba
  · have run : readFatSec lba d = some (true, d.noteRead lba) := if_pos hit
    refine ⟨d.noteRead lba, ⟨rfl, rfl, coherent, id⟩, ⟨hit.1, hit.2, ?_⟩,
      Prog.bind_eq_of_run run⟩
    rw [← hit.2]
    exact coherent hit.1
  · have run : readFatSec lba d = some (true, (d.fillFat lba).noteRead lba) := by
      rw [readFatSec, if_neg hit, if_pos has]
    exact ⟨(d.fillFat lba).noteRead lba, ⟨rfl, rfl, fun _ => rfl, fun _ _ => ⟨has, rfl⟩⟩,
      ⟨rfl, rfl, rfl⟩, Prog.bind_eq_of_run run⟩

theorem readFatSec_then_missing (cached : d.Cached) {lba : Nat} (missing : ¬ d.blk.Has lba)
    {α : Type} (failed : α) (next : DriverM α) :
    (do if !(← readFatSec lba) then pure failed else next) d = some (failed, d) := by
  have run : readFatSec lba d = some (false, d) := by
    have noHit : ¬ (d.fatBufValid ∧ d.fatBufLba = lba) := by
      rintro ⟨valid, rfl⟩
      exact missing (cached valid).1
    rw [readFatSec, if_neg noHit, if_neg missing]
  exact Prog.bind_eq_of_run run

theorem fatNextClus_narrow (narrow : d.m.Narrow) :
    fatNextClus c d = fatNextClus12 d.m c d := by
  rw [fatNextClus, Prog.bind_eq_of_run (mount_run d)]
  cases type : d.m.type with
  | fat16 => exact absurd type narrow.1
  | fat32 => exact absurd type narrow.2
  | none => rfl
  | fat12 => rfl

theorem next_narrow {m : Mount} {disk : Nat → Sector} (narrow : m.Narrow) :
    m.next disk c = chainEnd 0xFF8 (entry12 c ((m.table disk).get (m.rawOff c))
      ((m.table disk).get (m.rawOff c + 1))) := by
  have mark : m.mark = 0xFF8 := by
    unfold Mount.mark
    split <;> simp_all [Mount.Narrow]
  rw [Mount.next, mark, entryOf_narrow narrow]

/-- The sector that is read last for an entry. -/
def Mount.lastSec (m : Mount) (clus : Nat) : Nat :=
  if m.Straddles clus then u32 (m.entryLba clus + 1) else m.entryLba clus

theorem fatNextClus12_value (coherent : d.Coherent) (places : d.m.Places c)
    (hasEntry : d.HasEntry c) (narrow : d.m.Narrow) :
    ∃ d', fatNextClus12 d.m c d = some (d.m.next d.disk c, d') ∧
      d'.fatBufValid = true ∧ d'.fatBufLba = d.m.lastSec c := by
  obtain ⟨has, hasNext⟩ := hasEntry
  have inTable := places.inTable
  rw [places.entryLba_eq] at has
  rw [next_narrow narrow, fatNextClus12, Mount.lastSec, places.entryLba_eq, places.entryIdx_eq]
  by_cases last : d.m.rawOff c % 512 = 511
  · have straddles : d.m.Straddles c := ⟨narrow.1, narrow.2, places.entryIdx_eq.trans last⟩
    have spill := places.spill straddles
    have succ := places.succ_eq straddles
    have hasNext := hasNext straddles
    rw [succ] at hasNext
    rw [places.entryLba_eq] at succ
    rw [if_pos last, if_pos straddles, succ]
    obtain ⟨d₁, read₁, -, run₁⟩ := readFatSec_then_run coherent has noClus _
    obtain ⟨d₂, read₂, -, run₂⟩ := readFatSec_then_run read₁.coherent (read₁.has hasNext)
      noClus _
    have reads₂ := read₁.trans read₂
    obtain ⟨d₃, read₃, buf₃, run₃⟩ := readFatSec_then_run read₂.coherent (reads₂.has has)
      noClus _
    have reads₃ := reads₂.trans read₃
    obtain ⟨d₄, read₄, buf₄, run₄⟩ := readFatSec_then_run read₃.coherent (reads₃.has hasNext)
      noClus _
    refine ⟨d₄, run₁.trans (run₂.trans (run₃.trans ?_)), buf₄.valid, buf₄.place⟩
    rw [Prog.bind_eq_of_run (wbuf_run d₃)]
    refine run₄.trans ?_
    rw [Prog.bind_eq_of_run (wbuf_run d₄), buf₃.bytes, buf₄.bytes, Prog.pure_run,
      reads₂.disk, reads₃.disk,
      get_table_off inTable, get_table_spill spill last]
  · have fits : d.m.rawOff c % 512 + 1 < 512 := by omega
    have whole : ¬ d.m.Straddles c := fun straddles =>
      last (places.entryIdx_eq.symm.trans straddles.2.2)
    rw [if_neg last, if_neg whole]
    obtain ⟨d', -, buf, run⟩ := readFatSec_then_run coherent has noClus _
    refine ⟨d', run.trans ?_, buf.valid, buf.place⟩
    rw [Prog.bind_eq_of_run (wbuf_run d'), buf.bytes, Prog.pure_run,
      get_table_off inTable, get_table_succ inTable fits]

/-- `fat_next_clus` reports the entry of the first copy. -/
theorem fatNextClus_value (coherent : d.Coherent) (places : d.m.Places c)
    (hasEntry : d.HasEntry c) :
    ∃ d', fatNextClus c d = some (d.m.next d.disk c, d') ∧
      d'.fatBufValid = true ∧ d'.fatBufLba = d.m.lastSec c := by
  have has := hasEntry.1
  have inTable := places.inTable
  have lba := places.entryLba_eq
  have idx := places.entryIdx_eq
  rw [lba] at has
  rcases d.m.width_cases with type | type | narrow
  · obtain ⟨d', -, buf, run⟩ := readFatSec_then_run coherent has noClus
      (do pure (chainEnd 0xFFF8 ((← wbuf).loadLe (d.m.entryIdx c) 2)))
    have whole : ¬ d.m.Straddles c := fun straddles => straddles.1 type
    refine ⟨d', ?_, buf.valid, by rw [Mount.lastSec, if_neg whole, lba, buf.place]⟩
    rw [fatNextClus, Prog.bind_eq_of_run (mount_run d)]
    simp only [type, lba]
    refine run.trans ?_
    have even : d.m.rawOff c % 512 + 2 ≤ 512 := by
      simp only [Mount.rawOff, type]
      omega
    rw [Prog.bind_eq_of_run (wbuf_run d'), buf.bytes, idx, loadLe_table inTable even]
    simp [Mount.next, Mount.mark, Mount.entryOf, type, Prog.pure_run]
  · obtain ⟨d', -, buf, run⟩ := readFatSec_then_run coherent has noClus
      (do pure (chainEnd 0x0FFFFFF8 ((← wbuf).loadLe (d.m.entryIdx c) 4 % 2 ^ 28)))
    have whole : ¬ d.m.Straddles c := fun straddles => straddles.2.1 type
    refine ⟨d', ?_, buf.valid, by rw [Mount.lastSec, if_neg whole, lba, buf.place]⟩
    rw [fatNextClus, Prog.bind_eq_of_run (mount_run d)]
    simp only [type, lba]
    refine run.trans ?_
    have aligned : d.m.rawOff c % 512 + 4 ≤ 512 := by
      simp only [Mount.rawOff, type]
      omega
    rw [Prog.bind_eq_of_run (wbuf_run d'), buf.bytes, idx, loadLe_table inTable aligned]
    simp [Mount.next, Mount.mark, Mount.entryOf, type, Prog.pure_run]
  · rw [fatNextClus_narrow narrow]
    exact fatNextClus12_value coherent places hasEntry narrow

/-- An entry that is not on the device reads as an end of chain. -/
theorem fatNextClus_missing (cached : d.Cached) (missing : ¬ d.HasEntry c) :
    ∃ d', fatNextClus c d = some (noClus, d') := by
  rcases d.m.width_cases with type | type | narrow
  · have first : ¬ d.blk.Has (d.m.entryLba c) := fun has =>
      missing ⟨has, fun straddles => absurd type straddles.1⟩
    refine ⟨d, ?_⟩
    rw [fatNextClus, Prog.bind_eq_of_run (mount_run d)]
    simp only [type]
    exact readFatSec_then_missing cached first noClus _
  · have first : ¬ d.blk.Has (d.m.entryLba c) := fun has =>
      missing ⟨has, fun straddles => absurd type straddles.2.1⟩
    refine ⟨d, ?_⟩
    rw [fatNextClus, Prog.bind_eq_of_run (mount_run d)]
    simp only [type]
    exact readFatSec_then_missing cached first noClus _
  · rw [fatNextClus_narrow narrow, fatNextClus12]
    by_cases has : d.blk.Has (d.m.entryLba c)
    · have second : ¬ (d.m.Straddles c → d.blk.Has (u32 (d.m.entryLba c + 1))) :=
        fun hasNext => missing ⟨has, hasNext⟩
      obtain ⟨straddles, second⟩ := Classical.not_imp.mp second
      obtain ⟨d', read, -, run⟩ := readFatSec_then_run cached.coherent has noClus _
      refine ⟨d', run.trans ?_⟩
      rw [if_pos straddles.2.2]
      rw [← read.blk] at second
      exact readFatSec_then_missing (read.cached cached) second noClus _
    · exact ⟨d, readFatSec_then_missing cached has noClus _⟩

theorem readFatSec_cacheStep (d : Driver) : KeptByReads (CacheStep d) := by
  intro lba d₁ step ok d₂ run
  have good := readFatSec_good lba d₁ step.good ok d₂ run
  unfold readFatSec at run
  split at run
  · obtain ⟨-, rfl⟩ := Prod.mk.inj (Option.some.inj run)
    exact ⟨step.blk, step.m, step.secBuf, step.secBufLba, step.secBufValid, good⟩
  split at run <;> obtain ⟨-, rfl⟩ := Prod.mk.inj (Option.some.inj run) <;>
    exact ⟨step.blk, step.m, step.secBuf, step.secBufLba, step.secBufValid, good⟩

theorem fatNextClus_run (good : Good d) (sane : d.m.Sane d.blk.capacity)
    (inRange : c < d.m.clusterCount + 2) :
    ∃ d', fatNextClus c d = some (d.m.next d.disk c, d') ∧ CacheStep d d' := by
  obtain ⟨d', run, -⟩ := fatNextClus_value good.2 (sane.places inRange)
    (hasEntry_of_sane sane inRange)
  exact ⟨d', run, fatNextClus_keeps (readFatSec_cacheStep d) c d (CacheStep.refl good) _ _ run⟩

end Reading

section Writing

variable {d : Driver} {c value : Nat}

/-- What a change of one entry does to the disk. -/
structure TableWrite (m : Mount) (clus value : Nat) (disk disk' : Nat → Sector) : Prop where
  table : m.table disk' = m.putEntry clus value (m.table disk)
  outside : ∀ lba, m.Outside lba → disk' lba = disk lba
  mirrored : m.Mirrored disk → m.Mirrored disk'

theorem writeEach_run {ι : Type} (free : Free d) (items : List ι) (lba : ι → Nat)
    (has : ∀ i ∈ items, d.blk.Has (lba i)) :
    ∃ d', Prog.firstOf (fun i => do pure (if ← writeWbuf (lba i) then none else some ())) items d =
        some (none, d') ∧
      DiskStep d d' ∧ d'.fatWbuf = d.fatWbuf ∧
      d'.disk = fun x => if x ∈ items.map lba then d.fatWbuf else d.disk x := by
  induction items generalizing d with
  | nil => exact ⟨d, rfl, DiskStep.refl free, rfl, by simp⟩
  | cons i rest ih =>
      obtain ⟨d₁, run₁, step₁, disk₁, buf₁⟩ := writeWbuf_run free (has i List.mem_cons_self)
      obtain ⟨d₂, run₂, step₂, buf₂, disk₂⟩ := ih step₁.free fun j mem =>
        step₁.has (has j (List.mem_cons_of_mem i mem))
      refine ⟨d₂, ?_, step₁.trans step₂, buf₂.trans buf₁, ?_⟩
      · rw [Prog.firstOf_none (Prog.bind_eq_of_run run₁)]
        exact run₂
      · funext x
        rw [disk₂, disk₁, buf₁]
        by_cases last : x ∈ rest.map lba
        · simp [last]
        · by_cases first : x = lba i
          · simp [first]
          · simp only [List.map_cons, List.mem_cons, first, last, or_self, if_false]
            exact Function.update_of_ne first _ _

theorem u32_copy_of_le {m : Mount} (fits : m.rsvdSec + m.numFats * m.fatSec ≤ 2 ^ 32) {k s : Nat}
    (isCopy : k < m.numFats) (inTable : s < m.fatSec) :
    u32 (m.rsvdSec + s + k * m.fatSec) = m.rsvdSec + k * m.fatSec + s := by
  have table := copy_lt isCopy inTable
  rw [u32_of_lt (by omega)]
  omega

theorem u32_copy (sane : d.m.Sane d.blk.capacity) {k s : Nat} (isCopy : k < d.m.numFats)
    (inTable : s < d.m.fatSec) :
    u32 (d.m.rsvdSec + s + k * d.m.fatSec) = d.m.rsvdSec + k * d.m.fatSec + s := by
  have fits := sane.fatSec_le
  have bound := sane.capacity_lt
  exact u32_copy_of_le (by omega) isCopy inTable

theorem has_copy (sane : d.m.Sane d.blk.capacity) {k s : Nat} (isCopy : k < d.m.numFats)
    (inTable : s < d.m.fatSec) : d.blk.Has (d.m.rsvdSec + k * d.m.fatSec + s) := by
  have fits := sane.fatSec_le
  have table := copy_lt isCopy inTable
  exact has_of_lt sane (by omega)

/-- The mirror loop writes the buffer to the other copies. -/
theorem mirrorFat_run (free : Free d) {s : Nat} (inTable : s < d.m.fatSec) :
    ∃ d', mirrorFat d.m (d.m.rsvdSec + s) d = some (true, d') ∧ DiskStep d d' ∧
      (∀ k, 0 < k → k < d.m.numFats →
        d'.disk (d.m.rsvdSec + k * d.m.fatSec + s) = d.fatWbuf) ∧
      ∀ x, (∀ k, 0 < k → k < d.m.numFats → x ≠ d.m.rsvdSec + k * d.m.fatSec + s) →
        d'.disk x = d.disk x := by
  have sane := free.1.sane
  have lbas (k : Nat) : k ∈ List.range' 1 (d.m.numFats - 1) ↔ 0 < k ∧ k < d.m.numFats := by
    rw [List.mem_range'_1]
    omega
  have lba (k : Nat) (mem : k ∈ List.range' 1 (d.m.numFats - 1)) :
      u32 (d.m.rsvdSec + s + k * d.m.fatSec) = d.m.rsvdSec + k * d.m.fatSec + s :=
    u32_copy sane ((lbas k).mp mem).2 inTable
  obtain ⟨d', run, step, buf, disk⟩ := writeEach_run free (List.range' 1 (d.m.numFats - 1))
    (fun k => u32 (d.m.rsvdSec + s + k * d.m.fatSec)) fun k mem => by
      rw [lba k mem]
      exact has_copy sane ((lbas k).mp mem).2 inTable
  refine ⟨d', Prog.bind_eq_of_run run, step, ?_, ?_⟩
  · intro k positive isCopy
    have mem := (lbas k).mpr ⟨positive, isCopy⟩
    rw [disk]
    exact if_pos (List.mem_map.mpr ⟨k, mem, lba k mem⟩)
  · intro x other
    rw [disk]
    refine if_neg fun inList => ?_
    obtain ⟨k, mem, same⟩ := List.mem_map.mp inList
    have range := (lbas k).mp mem
    exact other k range.1 range.2 (same.symm.trans (lba k mem))

theorem editEntry_eq {m : Mount} (disk : Nat → Sector) (value : Nat)
    (idx : m.entryIdx c = m.rawOff c % 512) (whole : ¬ m.Straddles c)
    (inTable : m.rawOff c / 512 < m.fatSec) :
    m.rawOff c % 512 + m.entryWidth ≤ 512 ∧
      m.editEntry c value (disk (m.rsvdSec + m.rawOff c / 512)) =
        (disk (m.rsvdSec + m.rawOff c / 512)).blit (m.rawOff c % 512)
          (m.entryBytes c value (m.table disk)) := by
  rcases m.width_cases with type | type | narrow
  · have off : m.rawOff c = c * 2 := by simp [Mount.rawOff, type]
    have width : m.entryWidth = 2 := by simp [Mount.entryWidth, type]
    refine ⟨by omega, ?_⟩
    simp [Mount.editEntry, type, edit16, entryBytes_fat16 type, idx]
  · have off : m.rawOff c = c * 4 := by simp [Mount.rawOff, type]
    have width : m.entryWidth = 4 := by simp [Mount.entryWidth, type]
    refine ⟨by omega, ?_⟩
    simp only [Mount.editEntry, type, edit32, entryBytes_fat32 type, idx]
    rw [loadLe_table inTable (by omega), off]
  · have width := entryWidth_narrow narrow
    have inside : m.rawOff c % 512 + 1 < 512 := by
      have notLast : m.rawOff c % 512 ≠ 511 := fun last =>
        whole ⟨narrow.1, narrow.2, idx.trans last⟩
      omega
    refine ⟨by omega, ?_⟩
    have edit : m.editEntry c value = edit12 c (m.entryIdx c) value := by
      unfold Mount.editEntry
      split <;> simp_all [Mount.Narrow]
    rw [edit, idx, edit12, entryBytes_narrow narrow, get_table_off inTable,
      get_table_succ inTable inside]

/-- The same edit of one sector in every copy replaces the entry. -/
theorem tableWrite_whole {m : Mount} {disk disk' : Nat → Sector} (fats : 0 < m.numFats)
    (idx : m.entryIdx c = m.rawOff c % 512) (whole : ¬ m.Straddles c)
    (inTable : m.rawOff c / 512 < m.fatSec)
    (copies : ∀ k, k < m.numFats → disk' (m.rsvdSec + k * m.fatSec + m.rawOff c / 512) =
      m.editEntry c value (disk (m.rsvdSec + m.rawOff c / 512)))
    (rest : ∀ x, (∀ k, k < m.numFats → x ≠ m.rsvdSec + k * m.fatSec + m.rawOff c / 512) →
      disk' x = disk x) :
    TableWrite m c value disk disk' := by
  obtain ⟨fits, edited⟩ := editEntry_eq disk value idx whole inTable
  have first := copies 0 fats
  rw [Nat.zero_mul, Nat.add_zero] at first
  have kept {k s : Nat} (inTable' : s < m.fatSec) (other : s ≠ m.rawOff c / 512) :
      disk' (m.rsvdSec + k * m.fatSec + s) = disk (m.rsvdSec + k * m.fatSec + s) :=
    rest _ fun _ _ same => other (copy_inj inTable' inTable same).2
  have keptFirst {s : Nat} (inTable' : s < m.fatSec) (other : s ≠ m.rawOff c / 512) :
      disk' (m.rsvdSec + s) = disk (m.rsvdSec + s) := by
    have same := kept (k := 0) inTable' other
    rwa [Nat.zero_mul, Nat.add_zero] at same
  refine ⟨?_, ?_, ?_⟩
  · rw [table_blit inTable (by rwa [length_entryBytes]) (first.trans edited)
      (fun s inTable' other => keptFirst inTable' other), Mount.putEntry]
    congr 1
    omega
  · exact fun x outside => rest x fun k isCopy => outside_ne outside isCopy inTable
  · intro mirrored k isCopy s inTable'
    by_cases sector : s = m.rawOff c / 512
    · rw [sector, copies k isCopy, first]
    · rw [kept inTable' sector, keptFirst inTable' sector]
      exact mirrored k isCopy s inTable'

theorem fatSetEntry_run_whole (ready : Ready d) (inRange : c < d.m.clusterCount + 2)
    (whole : ¬ d.m.Straddles c) :
    ∃ d', fatSetEntry c value d = some (true, d') ∧ DiskStep d d' ∧
      TableWrite d.m c value d.disk d'.disk := by
  have sane := ready.sane
  have has := has_entry sane inRange
  have places := sane.places inRange
  have inTable := places.inTable
  have lba := places.entryLba_eq
  have free := ready.invalidated
  obtain ⟨d₁, step₁, disk₁, buf₁, run₁⟩ := updateSec_then_run
    (free.edited (d.disk (d.m.rsvdSec + d.m.rawOff c / 512))) has rfl
    (d.m.editEntry c value) false (mirrorFat d.m (d.m.rsvdSec + d.m.rawOff c / 512))
  have m₁ : d₁.m = d.m := step₁.m
  obtain ⟨d₂, run₂, step₂, copies, rest⟩ := mirrorFat_run step₁.free (by rwa [m₁])
  rw [m₁] at run₂ copies rest
  have step : DiskStep d d₂ :=
    ⟨step₂.m.trans m₁, step₂.capacity.trans step₁.capacity,
      fun secOk => step₂.secOk (step₁.secOk secOk), step₂.free⟩
  refine ⟨d₂, ?_, step, ?_⟩
  · rw [fatSetEntry, Prog.bind_eq_of_run (mount_run d), Prog.bind_eq_of_run (invalidate_run d),
      lba]
    refine (loadWbuf_then_run (d := { d with fatBufValid := false }) has false _).trans ?_
    rw [if_neg whole]
    exact run₁.trans run₂
  · apply tableWrite_whole sane.fats places.entryIdx_eq whole inTable
    · intro k isCopy
      rcases Nat.eq_zero_or_pos k with zero | other
      · rw [zero, Nat.zero_mul, Nat.add_zero,
          rest _ fun k other _ => first_copy_ne inTable inTable other, disk₁]
        exact Function.update_self _ _ d.disk
      · rw [copies k other isCopy, buf₁]
    · intro x apart
      have first := apart 0 sane.fats
      rw [Nat.zero_mul, Nat.add_zero] at first
      rw [rest x fun k _ isCopy => apart k isCopy, disk₁]
      exact Function.update_of_ne first _ d.disk

/-- The disk after the four writes of an entry that spans sectors `s` and `s + 1` of
both copies. -/
def Mount.straddledDisk (m : Mount) (clus value s : Nat) (disk : Nat → Sector) : Nat → Sector :=
  let first := low12 clus value ((disk (m.rsvdSec + s)).get 511)
  let put (lba : Nat) (edit : Sector → Sector) (disk : Nat → Sector) :=
    Function.update disk lba (edit (disk lba))
  put (m.rsvdSec + 1 * m.fatSec + (s + 1)) (editSpill clus value)
    (put (m.rsvdSec + 1 * m.fatSec + s) (·.blit 511 [first])
      (put (m.rsvdSec + (s + 1)) (editSpill clus value)
        (put (m.rsvdSec + s) (·.blit 511 [first]) disk)))

theorem fatSetStraddled_run (free : Free d) (inRange : c < d.m.clusterCount + 2)
    (straddles : d.m.Straddles c)
    (held : d.fatWbuf = d.disk (d.m.rsvdSec + d.m.rawOff c / 512)) :
    ∃ d', fatSetStraddled d.m c value d = some (true, d') ∧ DiskStep d d' ∧
      d'.disk = d.m.straddledDisk c value (d.m.rawOff c / 512) d.disk := by
  have sane := free.1.sane
  have two := sane.mirrors c inRange straddles
  have places := sane.places inRange
  have spill := places.spill straddles
  have inTable := places.inTable
  have last := straddles.2.2
  have lba := places.entryLba_eq
  have has := has_entry sane inRange
  have isCopy : 1 < d.m.numFats := by omega
  have fourth : u32 (d.m.rsvdSec + d.m.rawOff c / 512 + d.m.fatSec + 1) =
      d.m.rsvdSec + 1 * d.m.fatSec + (d.m.rawOff c / 512 + 1) := by
    rw [← u32_copy sane isCopy spill]
    congr 1
    omega
  have third : u32 (d.m.rsvdSec + d.m.rawOff c / 512 + d.m.fatSec) =
      d.m.rsvdSec + 1 * d.m.fatSec + d.m.rawOff c / 512 := by
    rw [← u32_copy sane isCopy inTable, Nat.one_mul]
  rw [fatSetStraddled, Prog.bind_eq_of_run (wbuf_run d), lba, last, u32_succ sane spill, third,
    fourth, held]
  obtain ⟨d₁, step₁, disk₁, -, run₁⟩ := updateSec_then_run free has held
    (·.blit 511 [low12 c value ((d.disk (d.m.rsvdSec + d.m.rawOff c / 512)).get 511)]) false _
  obtain ⟨d₂, step₂, disk₂, run₂⟩ := loadUpdate_then_run step₁.free
    (step₁.has (has_spill sane spill)) (editSpill c value) false _
  obtain ⟨d₃, step₃, disk₃, run₃⟩ := loadUpdate_then_run step₂.free
    ((step₁.trans step₂).has (has_copy sane isCopy inTable))
    (·.blit 511 [low12 c value ((d.disk (d.m.rsvdSec + d.m.rawOff c / 512)).get 511)]) false _
  have has₄ := ((step₁.trans step₂).trans step₃).has (has_copy sane isCopy spill)
  obtain ⟨d₄, run₄, step₄, disk₄, -⟩ := updateSec_run
    (step₃.free.edited (d₃.disk (d.m.rsvdSec + 1 * d.m.fatSec + (d.m.rawOff c / 512 + 1)))) has₄ rfl
    (editSpill c value)
  refine ⟨d₄, ?_, ((step₁.trans step₂).trans step₃).trans step₄.of_edited, ?_⟩
  · refine run₁.trans (run₂.trans (run₃.trans ?_))
    exact (loadWbuf_then_run has₄ false _).trans run₄
  · rw [disk₄]
    simp only [Driver.disk] at disk₁ disk₂ disk₃ ⊢
    rw [disk₃, disk₂, disk₁]
    rfl

theorem straddledDisk_apply {m : Mount} {clus value s : Nat} {disk : Nat → Sector}
    (spill : s + 1 < m.fatSec) (x : Nat) :
    m.straddledDisk clus value s disk x =
      if x = m.rsvdSec + (s + 1) ∨ x = m.rsvdSec + 1 * m.fatSec + (s + 1) then
        editSpill clus value (disk x)
      else if x = m.rsvdSec + s ∨ x = m.rsvdSec + 1 * m.fatSec + s then
        (disk x).blit 511 [low12 clus value ((disk (m.rsvdSec + s)).get 511)]
      else disk x := by
  simp only [Mount.straddledDisk, Function.update_apply]
  grind

/-- A disk after the two writes of an entry that spans sectors `s` and `s + 1` of the first
copy. -/
def Mount.spilledDisk (m : Mount) (clus value s : Nat) (disk : Nat → Sector) : Nat → Sector :=
  let put (lba : Nat) (edit : Sector → Sector) (disk : Nat → Sector) :=
    Function.update disk lba (edit (disk lba))
  put (m.rsvdSec + (s + 1)) (editSpill clus value)
    (put (m.rsvdSec + s) (·.blit 511 [low12 clus value ((disk (m.rsvdSec + s)).get 511)]) disk)

/-- The two sectors of the first copy get the two bytes of the entry. -/
theorem table_spilled {m : Mount} {disk : Nat → Sector}
    (spill : m.rawOff c / 512 + 1 < m.fatSec) (narrow : m.Narrow)
    (last : m.rawOff c % 512 = 511) :
    m.table (m.spilledDisk c value (m.rawOff c / 512) disk) =
      m.putEntry c value (m.table disk) := by
  have inTable : m.rawOff c / 512 < m.fatSec := by omega
  let first := low12 c value ((disk (m.rsvdSec + m.rawOff c / 512)).get 511)
  let disk₁ := Function.update disk (m.rsvdSec + m.rawOff c / 512)
    ((disk (m.rsvdSec + m.rawOff c / 512)).blit 511 [first])
  have table₁ : m.table disk₁ =
      (m.table disk).blit (m.rawOff c / 512 * 512 + 511) [first] :=
    table_update_blit inTable (by simp)
  have table₂ : m.table (m.spilledDisk c value (m.rawOff c / 512) disk) =
      (m.table disk₁).blit ((m.rawOff c / 512 + 1) * 512 + 0)
        [high12 c value ((disk₁ (m.rsvdSec + (m.rawOff c / 512 + 1))).get 0)] :=
    table_update_blit spill (by simp)
  have below : disk₁ (m.rsvdSec + (m.rawOff c / 512 + 1)) =
      disk (m.rsvdSec + (m.rawOff c / 512 + 1)) := Function.update_of_ne (by omega) _ _
  rw [table₂, below, table₁, Mount.putEntry, entryBytes_narrow narrow,
    ← get_table_off inTable, ← get_table_spill spill last, last]
  have off : m.rawOff c / 512 * 512 + 511 = m.rawOff c := by omega
  have next : (m.rawOff c / 512 + 1) * 512 + 0 = m.rawOff c + [first].length := by
    simp only [List.length_singleton]
    omega
  rw [off, next, ← Buffer.blit_append]
  rfl

/-- The writes to the second copy, or to where it would be, do not touch the first. -/
theorem table_straddled {m : Mount} {disk : Nat → Sector}
    (spill : m.rawOff c / 512 + 1 < m.fatSec) (narrow : m.Narrow)
    (last : m.rawOff c % 512 = 511) :
    m.table (m.straddledDisk c value (m.rawOff c / 512) disk) =
      m.putEntry c value (m.table disk) := by
  have inTable : m.rawOff c / 512 < m.fatSec := by omega
  rw [← table_spilled spill narrow last]
  refine table_congr fun s within => ?_
  have fourth := first_copy_ne spill within (show 0 < 1 by decide)
  have third := first_copy_ne inTable within (show 0 < 1 by decide)
  simp only [Mount.straddledDisk]
  rw [Function.update_of_ne fourth, Function.update_of_ne third]
  rfl

theorem tableWrite_straddled {m : Mount} {disk : Nat → Sector} (two : m.numFats = 2)
    (spill : m.rawOff c / 512 + 1 < m.fatSec) (narrow : m.Narrow)
    (last : m.rawOff c % 512 = 511) :
    TableWrite m c value disk (m.straddledDisk c value (m.rawOff c / 512) disk) := by
  have inTable : m.rawOff c / 512 < m.fatSec := by omega
  have written (x : Nat) :
      m.straddledDisk c value (m.rawOff c / 512) disk x = _ := straddledDisk_apply spill x
  refine ⟨table_straddled spill narrow last, ?_, ?_⟩
  · intro x outside
    have first := outside_ne outside (show 0 < m.numFats by omega) inTable
    have firstSpill := outside_ne outside (show 0 < m.numFats by omega) spill
    have second := outside_ne outside (show 1 < m.numFats by omega) inTable
    have secondSpill := outside_ne outside (show 1 < m.numFats by omega) spill
    rw [written, if_neg (by omega), if_neg (by omega)]
  · intro mirrored k isCopy s inTable'
    rcases Nat.eq_zero_or_pos k with zero | other
    · simp [zero]
    obtain rfl : k = 1 := by omega
    have same := mirrored 1 isCopy s inTable'
    rw [written, written, same]
    exact if_congr (by omega) rfl (if_congr (by omega) rfl rfl)

/-- `fat_set_entry` replaces the entry in every copy. -/
theorem fatSetEntry_run (value : Nat) (ready : Ready d) (inRange : c < d.m.clusterCount + 2) :
    ∃ d', fatSetEntry c value d = some (true, d') ∧ DiskStep d d' ∧
      TableWrite d.m c value d.disk d'.disk := by
  by_cases straddles : d.m.Straddles c
  · have has := has_entry ready.sane inRange
    have places := ready.sane.places inRange
    obtain ⟨d', run, step, disk⟩ := fatSetStraddled_run
      (ready.invalidated.edited (d.disk (d.m.rsvdSec + d.m.rawOff c / 512))) inRange
      straddles rfl
    refine ⟨d', ?_, ⟨step.m, step.capacity, step.secOk, step.free⟩, ?_⟩
    · rw [fatSetEntry, Prog.bind_eq_of_run (mount_run d), Prog.bind_eq_of_run (invalidate_run d),
        places.entryLba_eq]
      refine (loadWbuf_then_run (d := { d with fatBufValid := false }) has false _).trans ?_
      rw [if_pos straddles]
      exact run
    · rw [disk]
      exact tableWrite_straddled (ready.sane.mirrors c inRange straddles)
        (places.spill straddles) ⟨straddles.1, straddles.2.1⟩
        (places.entryIdx_eq.symm.trans straddles.2.2)
  · exact fatSetEntry_run_whole ready inRange straddles

end Writing

end Ncd15.Fat
