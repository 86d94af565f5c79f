import Ncd15.Fat.AllocatorLaw

/-!
# The table as far as its entries reach

The mount data bound neither the size of the table nor where its copies are, and what
`fat_set_entry` writes for the other copies may fall on sectors of the first.  It then
falls on one side of the entry only, which is the same side for all entries of a volume.
-/

namespace Ncd15.Fat

open Ncd15.Library

section Reading

/-- The mount data with the sectors of every entry that has a 32-bit offset. -/
def Mount.wide (m : Mount) : Mount := { m with fatSec := 2 ^ 23 }

variable {m : Mount} {d d' : Driver} {c value : Nat}

theorem wide_places (accepted : m.Accepted) (small : c < 2 ^ 30) : m.wide.Places c := by
  have reserved := accepted.rsvdSec_lt
  have off : m.wide.rawOff c + m.wide.entryWidth ≤ 2 ^ 32 := by
    unfold Mount.rawOff Mount.entryWidth
    cases m.wide.type <;> simp only <;> omega
  have width := m.wide.entryWidth_pos
  have size : m.wide.fatSec = 2 ^ 23 := rfl
  have start : m.wide.rsvdSec = m.rsvdSec := rfl
  exact ⟨by omega, by omega, by omega⟩

/-- The driver with other mount data. -/
def Driver.under (d : Driver) (m : Mount) : Driver := { d with m }

abbrev Mountless {α : Type} (m : Mount) (f : DriverM α) : Prop := Unread (Driver.under · m) f

theorem pure_mountless {α : Type} (a : α) : Mountless m (pure a : DriverM α) :=
  .pure a fun _ => rfl

theorem wbuf_mountless : Mountless m wbuf := fun _ => rfl

theorem readFatSec_mountless (lba : Nat) : Mountless m (readFatSec lba) := by
  intro d
  rw [readFatSec, readFatSec, apply_ite (Option.map _), apply_ite (Option.map _),
    apply_ite (Option.map _), apply_ite (Option.map _)]
  rfl

theorem readFatSec_then_mountless {lba : Nat} {α : Type} {failed : α} {next : DriverM α}
    (rest : Mountless m next) :
    Mountless m (do if !(← readFatSec lba) then pure failed else next) :=
  .bind (readFatSec_mountless lba) fun _ => .ite (pure_mountless _) rest

/-- `fat_next_clus` does not ask how long the table is. -/
theorem fatNextClus_wide (run : fatNextClus c d = some (value, d')) :
    ∃ t, fatNextClus c (d.under d.m.wide) = some (value, t) := by
  have final (f : Sector → Nat) : Mountless d.m.wide (do pure (f (← wbuf))) :=
    .bind wbuf_mountless fun _ => pure_mountless _
  have narrow : Mountless d.m.wide (fatNextClus12 d.m c) := by
    refine readFatSec_then_mountless (.ite ?_ (final _))
    refine readFatSec_then_mountless (readFatSec_then_mountless (.bind wbuf_mountless fun _ => ?_))
    exact readFatSec_then_mountless (final _)
  have same : (d.under d.m.wide).m.type = d.m.type := rfl
  rw [fatNextClus, Prog.bind_eq_of_run (mount_run d)] at run
  rw [fatNextClus, Prog.bind_eq_of_run (mount_run (d.under d.m.wide)), same]
  cases type : d.m.type with
  | none =>
      simp only [type] at run ⊢
      obtain ⟨t, run, -⟩ := narrow.run run
      exact ⟨t, run⟩
  | fat12 =>
      simp only [type] at run ⊢
      obtain ⟨t, run, -⟩ := narrow.run run
      exact ⟨t, run⟩
  | fat16 =>
      simp only [type] at run ⊢
      obtain ⟨t, run, -⟩ := (readFatSec_then_mountless (final _)).run run
      exact ⟨t, run⟩
  | fat32 =>
      simp only [type] at run ⊢
      obtain ⟨t, run, -⟩ := (readFatSec_then_mountless (final _)).run run
      exact ⟨t, run⟩

/-- What `fat_next_clus` returns when the shared buffer is free. -/
theorem nextClus_wide (accepted : d.m.Accepted) (idle : d.fatBufValid = false)
    (small : c < 2 ^ 30) (run : fatNextClus c d = some (value, d')) :
    value = noClus ∨ value = d.m.wide.next d.disk c := by
  obtain ⟨t, run⟩ := fatNextClus_wide run
  have free : (d.under d.m.wide).fatBufValid = false := idle
  by_cases has : (d.under d.m.wide).HasEntry c
  · have coherent : (d.under d.m.wide).Coherent := fun valid => by simp [free] at valid
    obtain ⟨t', run', -⟩ := fatNextClus_value coherent (wide_places accepted small) has
    right
    exact congrArg Prod.fst (Option.some.inj (run.symm.trans run'))
  · have cached : (d.under d.m.wide).Cached := fun valid => by simp [free] at valid
    obtain ⟨t', run'⟩ := fatNextClus_missing cached has
    left
    exact congrArg Prod.fst (Option.some.inj (run.symm.trans run'))

end Reading

section Sides

variable {m : Mount}

/-- No sector that is written for another copy lies before the sector of the first. -/
def Mount.Upward (m : Mount) : Prop :=
  ∀ k s t, 0 < k → k < max m.numFats 2 → s < 2 ^ 23 → t < s →
    u32 (m.rsvdSec + s + k * m.fatSec) ≠ m.rsvdSec + t

/-- No sector that is written for another copy lies behind the sector of the first. -/
def Mount.Downward (m : Mount) : Prop :=
  ∀ k s t, 0 < k → k < max m.numFats 2 → t < 2 ^ 23 → s < t →
    u32 (m.rsvdSec + s + k * m.fatSec) ≠ m.rsvdSec + t

/-- Steps of `k` and `j` copies that go back by `a` and forth by `b` are too short to meet. -/
theorem sides_meet {f k j a b q r : Nat} (back : a + k * f = 2 ^ 32 * q)
    (forth : j * f = 2 ^ 32 * r + b) (positive : 0 < j * a) (small : j * a + k * b < 2 ^ 32) :
    False := by
  have left : j * a + j * (k * f) = 2 ^ 32 * (j * q) := by
    rw [← Nat.mul_add, back]
    ring
  have right : j * (k * f) = 2 ^ 32 * (k * r) + k * b := by
    rw [Nat.mul_left_comm, forth, Nat.mul_add]
    ring
  omega

/-- The first copies, up to 255 of them, are within 255 times the table of each other. -/
theorem upward_or_downward (accepted : m.Accepted) : m.Upward ∨ m.Downward := by
  have few := accepted.numFats_lt
  have reserved := accepted.rsvdSec_lt
  by_cases upward : m.Upward
  · exact Or.inl upward
  refine Or.inr fun j s' t' positive' isCopy' small' ahead same' => ?_
  simp only [Mount.Upward, not_forall, not_not] at upward
  obtain ⟨k, s, t, positive, isCopy, small, behind, same⟩ := upward
  unfold u32 at same same'
  have back := Nat.div_add_mod (m.rsvdSec + s + k * m.fatSec) (2 ^ 32)
  have forth := Nat.div_add_mod (m.rsvdSec + s' + j * m.fatSec) (2 ^ 32)
  have first : j * (s - t) ≤ 255 * 2 ^ 23 := Nat.mul_le_mul (by omega) (by omega)
  have second : k * (t' - s') ≤ 255 * 2 ^ 23 := Nat.mul_le_mul (by omega) (by omega)
  have apart : 0 < j * (s - t) := Nat.mul_pos positive' (by omega)
  exact sides_meet (f := m.fatSec) (k := k) (j := j) (a := s - t) (b := t' - s')
    (q := (m.rsvdSec + s + k * m.fatSec) / 2 ^ 32)
    (r := (m.rsvdSec + s' + j * m.fatSec) / 2 ^ 32) (by omega) (by omega) apart (by omega)

end Sides

section Writing

variable {m : Mount} {d d' : Driver} {c value : Nat}

theorem get_wide (m : Mount) (disk : Nat → Sector) {i : Nat} (small : i < 2 ^ 32) :
    (m.wide.table disk).get i = (disk (m.rsvdSec + i / 512)).get (i % 512) :=
  (get_table_off (m := m.wide) (show i / 512 < 2 ^ 23 by omega)).symm

/-- An entry in one sector is replaced there, and its sector is written elsewhere. -/
theorem setWhole_sectors (accepted : d.m.Accepted) (small : c < 2 ^ 30)
    (whole : ¬ d.m.Straddles c) (run : fatSetEntry c value d = some (true, d')) :
    ∃ disk₁ : Nat → Sector,
      d.m.wide.table disk₁ = d.m.wide.putEntry c value (d.m.wide.table d.disk) ∧
      ∀ t, (t ≠ d.m.rawOff c / 512 → ∀ k, 0 < k → k < d.m.numFats →
          u32 (d.m.rsvdSec + d.m.rawOff c / 512 + k * d.m.fatSec) ≠ d.m.rsvdSec + t) →
        d'.disk (d.m.rsvdSec + t) = disk₁ (d.m.rsvdSec + t) := by
  have places := wide_places accepted small
  have lba : d.m.entryLba c = d.m.rsvdSec + d.m.rawOff c / 512 := places.entryLba_eq
  obtain ⟨fits, edited⟩ :=
    editEntry_eq (m := d.m.wide) d.disk value places.entryIdx_eq whole places.inTable
  have table : d.m.wide.table (Function.update d.disk (d.m.rsvdSec + d.m.rawOff c / 512)
      (d.m.editEntry c value (d.disk (d.m.rsvdSec + d.m.rawOff c / 512)))) =
      d.m.wide.putEntry c value (d.m.wide.table d.disk) := by
    have bytes : d.m.rawOff c / 512 * 512 + d.m.rawOff c % 512 = d.m.rawOff c :=
      Nat.div_add_mod' _ _
    have sector : d.m.editEntry c value (d.disk (d.m.rsvdSec + d.m.rawOff c / 512)) = _ := edited
    rw [sector, Mount.putEntry]
    refine (table_update_blit places.inTable (by rwa [length_entryBytes])).trans ?_
    exact congrArg (fun i => (d.m.wide.table d.disk).blit i _) bytes
  rw [fatSetEntry, Prog.bind_eq_of_run (mount_run d), Prog.bind_eq_of_run (invalidate_run d)] at run
  obtain ⟨-, run⟩ := loadWbuf_then_success run
  rw [if_neg whole, lba] at run
  obtain ⟨d₁, -, -, disk₁, buf₁, run⟩ := updateSec_then_success run
  obtain ⟨-, mirrors, rest⟩ := mirrorFat_success run
  refine ⟨d₁.disk, by rw [disk₁]; exact table, fun t clear => ?_⟩
  by_cases copy : ∃ k, 0 < k ∧ k < d.m.numFats ∧
      d.m.rsvdSec + t = u32 (d.m.rsvdSec + d.m.rawOff c / 512 + k * d.m.fatSec)
  · obtain ⟨k, positive, isCopy, same⟩ := copy
    have here : t = d.m.rawOff c / 512 := by
      by_contra other
      exact clear other k positive isCopy same.symm
    rw [same, mirrors k positive isCopy, ← same, here, buf₁, disk₁, Function.update_self]
  · refine rest _ fun k positive isCopy same => copy ⟨k, positive, isCopy, same⟩

theorem high12_high12 (clus value : Nat) (b : UInt8) :
    high12 clus value (high12 clus value b) = high12 clus value b := by
  have bound := b.toNat_lt
  unfold high12
  split
  · rfl
  · apply UInt8.toNat_inj.mp
    simp only [UInt8.toNat_ofNat']
    omega

/-- The writes for the second copy change the two bytes of the entry elsewhere, or write
them again. -/
theorem fourWrites_get {disk : Nat → Sector} {start x j : Nat} (last : m.entryIdx c = 511)
    (lba : m.entryLba c = m.rsvdSec + start)
    (succ : u32 (m.entryLba c + 1) = m.rsvdSec + (start + 1))
    (low : j = 511 → x ≠ m.rsvdSec + start → x ≠ u32 (m.entryLba c + m.fatSec))
    (high : j = 0 → x ≠ m.rsvdSec + (start + 1) → x ≠ u32 (m.entryLba c + m.fatSec + 1)) :
    (m.fourWrites c value disk x).get j = (m.spilledDisk c value start disk x).get j := by
  let first := low12 c value ((disk (m.rsvdSec + start)).get 511)
  let spilled := m.spilledDisk c value start disk
  let third := u32 (m.entryLba c + m.fatSec)
  let fourth := u32 (m.entryLba c + m.fatSec + 1)
  let disk₃ := Function.update spilled third ((spilled third).blit 511 [first])
  have four : m.fourWrites c value disk =
      Function.update disk₃ fourth (editSpill c value (disk₃ fourth)) := by
    unfold Mount.fourWrites
    dsimp only
    rw [succ, last, lba]
    simp only [disk₃, third, fourth, lba]
    rfl
  have atFirst : (spilled (m.rsvdSec + start)).get 511 = first := by
    have apart : m.rsvdSec + start ≠ m.rsvdSec + (start + 1) := by omega
    simp only [spilled, Mount.spilledDisk, Function.update_of_ne apart, Function.update_self]
    rw [Buffer.get_blit_singleton _ (by decide), if_pos rfl]
  have atSecond : ∃ b, (spilled (m.rsvdSec + (start + 1))).get 0 = high12 c value b := by
    simp only [spilled, Mount.spilledDisk, Function.update_self, editSpill]
    rw [Buffer.get_blit_singleton _ (by decide), if_pos rfl]
    exact ⟨_, rfl⟩
  have thirdWrite (y i : Nat) (clear : i = 511 → y ≠ m.rsvdSec + start → y ≠ third) :
      (disk₃ y).get i = (spilled y).get i := by
    by_cases here : y = third
    · have written : disk₃ third = (spilled third).blit 511 [first] :=
        Function.update_self third _ spilled
      subst here
      rw [written, Buffer.get_blit_singleton _ (by decide)]
      by_cases byte : i = 511
      · have same : third = m.rsvdSec + start := by
          by_contra other
          exact clear byte other rfl
        rw [if_pos byte, byte, same, atFirst]
      · rw [if_neg byte]
    · exact congrArg (fun s : Sector => s.get i) (Function.update_of_ne here _ spilled)
  rw [four, ← thirdWrite x j low]
  by_cases here : x = fourth
  · subst here
    rw [Function.update_self, editSpill, Buffer.get_blit_singleton _ (by decide)]
    by_cases byte : j = 0
    · have same : fourth = m.rsvdSec + (start + 1) := by
        by_contra other
        exact high byte other rfl
      obtain ⟨b, spill⟩ := atSecond
      have kept := thirdWrite (m.rsvdSec + (start + 1)) 0 fun absurd => by omega
      rw [if_pos byte, byte, same, kept, spill, high12_high12]
    · rw [if_neg byte]
  · rw [Function.update_of_ne here]

/-- An entry in two sectors is replaced there, and its bytes are written elsewhere. -/
theorem setStraddled_bytes (accepted : d.m.Accepted) (small : c < 2 ^ 30)
    (straddles : d.m.Straddles c) (run : fatSetEntry c value d = some (true, d')) :
    ∃ disk₁ : Nat → Sector,
      d.m.wide.table disk₁ = d.m.wide.putEntry c value (d.m.wide.table d.disk) ∧
      ∀ t j, (j = 511 → t ≠ d.m.rawOff c / 512 →
          u32 (d.m.rsvdSec + d.m.rawOff c / 512 + 1 * d.m.fatSec) ≠ d.m.rsvdSec + t) →
        (j = 0 → t ≠ d.m.rawOff c / 512 + 1 →
          u32 (d.m.rsvdSec + (d.m.rawOff c / 512 + 1) + 1 * d.m.fatSec) ≠ d.m.rsvdSec + t) →
        (d'.disk (d.m.rsvdSec + t)).get j = (disk₁ (d.m.rsvdSec + t)).get j := by
  have places := wide_places accepted small
  have lba : d.m.entryLba c = d.m.rsvdSec + d.m.rawOff c / 512 := places.entryLba_eq
  have succ : u32 (d.m.entryLba c + 1) = d.m.rsvdSec + (d.m.rawOff c / 512 + 1) :=
    places.succ_eq straddles
  have spill : d.m.wide.rawOff c / 512 + 1 < d.m.wide.fatSec := places.spill straddles
  have table : d.m.wide.table (d.m.wide.spilledDisk c value (d.m.wide.rawOff c / 512) d.disk) =
      d.m.wide.putEntry c value (d.m.wide.table d.disk) :=
    table_spilled spill ⟨straddles.1, straddles.2.1⟩
      (places.entryIdx_eq.symm.trans straddles.2.2)
  rw [fatSetEntry, Prog.bind_eq_of_run (mount_run d), Prog.bind_eq_of_run (invalidate_run d)] at run
  obtain ⟨-, run⟩ := loadWbuf_then_success run
  rw [if_pos straddles] at run
  obtain ⟨-, -, disk⟩ := fatSetStraddled_stored
    (d := { d.invalidated with fatWbuf := d.disk (d.m.entryLba c) }) rfl run
  refine ⟨_, table, fun t j low high => ?_⟩
  rw [disk]
  refine fourWrites_get straddles.2.2 lba succ (fun byte other same => ?_)
    (fun byte other same => ?_)
  · refine low byte (fun sector => other (congrArg (d.m.rsvdSec + ·) sector)) ?_
    rw [same, lba, Nat.one_mul]
  · refine high byte (fun sector => other (congrArg (d.m.rsvdSec + ·) sector)) ?_
    rw [same, lba, Nat.one_mul]
    congr 1
    omega

theorem entryOf_congr {size : Nat} {t t' : Buffer size}
    (same : ∀ i, m.rawOff c ≤ i → i < m.rawOff c + m.entryWidth → t'.get i = t.get i) :
    m.entryOf t' c = m.entryOf t c := by
  rcases m.width_cases with type | type | narrow
  · simp only [Mount.rawOff, Mount.entryWidth, type] at same
    rw [entryOf_fat16 type, entryOf_fat16 type, Buffer.loadLe_congr same]
  · simp only [Mount.rawOff, Mount.entryWidth, type] at same
    rw [entryOf_fat32 type, entryOf_fat32 type, Buffer.loadLe_congr same]
  · have width := entryWidth_narrow narrow
    rw [entryOf_narrow narrow, entryOf_narrow narrow, same _ le_rfl (by omega),
      same _ (Nat.le_succ _) (by omega)]

/-- An entry is written between others: those of smaller numbers end where it ends or before,
and those of larger ones start where it starts or behind. -/
theorem rawOff_mono {e : Nat} (le : e ≤ c) :
    m.rawOff e ≤ m.rawOff c ∧ m.rawOff e + m.entryWidth ≤ m.rawOff c + m.entryWidth := by
  unfold Mount.rawOff Mount.entryWidth
  cases m.type <;> simp only <;> omega

/-- The bytes up to an entry are those of the table with the entry replaced. -/
theorem setEntry_upTo (accepted : d.m.Accepted) (small : c < 2 ^ 30) (upward : d.m.Upward)
    (run : fatSetEntry c value d = some (true, d')) {i : Nat}
    (inside : i < d.m.rawOff c + d.m.entryWidth) :
    (d.m.wide.table d'.disk).get i =
      (d.m.wide.putEntry c value (d.m.wide.table d.disk)).get i := by
  have places := wide_places accepted small
  have inTable : d.m.rawOff c / 512 < 2 ^ 23 := places.inTable
  have covered : d.m.rawOff c + d.m.entryWidth ≤ 2 ^ 23 * 512 := places.covered
  by_cases straddles : d.m.Straddles c
  · obtain ⟨disk₁, table, same⟩ := setStraddled_bytes accepted small straddles run
    have spill : d.m.rawOff c / 512 + 1 < 2 ^ 23 := places.spill straddles
    have last : d.m.rawOff c % 512 = 511 := places.entryIdx_eq.symm.trans straddles.2.2
    have width : d.m.entryWidth = 2 := entryWidth_narrow ⟨straddles.1, straddles.2.1⟩
    rw [← table, get_wide _ _ (by omega), get_wide _ _ (by omega)]
    refine same _ _ (fun byte other => ?_) (fun byte other => ?_)
    · exact upward 1 _ _ (by decide) (by omega) inTable (by omega)
    · exact upward 1 _ _ (by decide) (by omega) spill (by omega)
  · obtain ⟨disk₁, table, same⟩ := setWhole_sectors accepted small straddles run
    obtain ⟨fits, -⟩ := editEntry_eq (m := d.m.wide) d.disk value places.entryIdx_eq straddles
      places.inTable
    have inSector : d.m.rawOff c % 512 + d.m.entryWidth ≤ 512 := fits
    rw [← table, get_wide _ _ (by omega), get_wide _ _ (by omega), same]
    intro other k positive isCopy
    exact upward k _ _ positive (by omega) inTable (by omega)

/-- The bytes from an entry on are those of the table with the entry replaced. -/
theorem setEntry_from (accepted : d.m.Accepted) (small : c < 2 ^ 30) (downward : d.m.Downward)
    (run : fatSetEntry c value d = some (true, d')) {i : Nat} (behind : d.m.rawOff c ≤ i)
    (inside : i < 2 ^ 32) :
    (d.m.wide.table d'.disk).get i =
      (d.m.wide.putEntry c value (d.m.wide.table d.disk)).get i := by
  have places := wide_places accepted small
  by_cases straddles : d.m.Straddles c
  · obtain ⟨disk₁, table, same⟩ := setStraddled_bytes accepted small straddles run
    have last : d.m.rawOff c % 512 = 511 := places.entryIdx_eq.symm.trans straddles.2.2
    rw [← table, get_wide _ _ inside, get_wide _ _ inside]
    refine same _ _ (fun byte other => ?_) (fun byte other => ?_)
    · exact downward 1 _ _ (by decide) (by omega) (by omega) (by omega)
    · exact downward 1 _ _ (by decide) (by omega) (by omega) (by omega)
  · obtain ⟨disk₁, table, same⟩ := setWhole_sectors accepted small straddles run
    rw [← table, get_wide _ _ inside, get_wide _ _ inside, same]
    intro other k positive isCopy
    exact downward k _ _ positive (by omega) (by omega) (by omega)

/-- The value of an entry in the table as far as entries reach. -/
def Driver.wideLink (d : Driver) (c : Nat) : Nat := d.m.wide.entryOf (d.m.wide.table d.disk) c

/-- A written entry has its value, and the entries on one side of it are as they were. -/
theorem setEntry_links (accepted : d.m.Accepted) (small : c < 2 ^ 30)
    (run : fatSetEntry c value d = some (true, d')) (fits : value < d.m.entryBound) :
    d'.wideLink c = value ∧
      (d.m.Upward → ∀ e, e < c → d'.wideLink e = d.wideLink e) ∧
      (d.m.Downward → ∀ e, c < e → e < 2 ^ 30 → d'.wideLink e = d.wideLink e) := by
  have places := wide_places accepted small
  have covered := places.covered
  have m : d'.m = d.m := (fatSetEntry_step run).m
  have before (upward : d.m.Upward) (e : Nat) (le : e ≤ c) :
      d'.wideLink e = d.m.wide.entryOf (d.m.wide.putEntry c value (d.m.wide.table d.disk)) e := by
    rw [Driver.wideLink, m]
    refine entryOf_congr fun i _ inside => setEntry_upTo accepted small upward run ?_
    exact Nat.lt_of_lt_of_le inside (rawOff_mono (m := d.m.wide) le).2
  have after (downward : d.m.Downward) (e : Nat) (le : c ≤ e) (short : e < 2 ^ 30) :
      d'.wideLink e = d.m.wide.entryOf (d.m.wide.putEntry c value (d.m.wide.table d.disk)) e := by
    have covered : d.m.wide.rawOff e + d.m.wide.entryWidth ≤ 2 ^ 23 * 512 :=
      (wide_places accepted short).covered
    rw [Driver.wideLink, m]
    refine entryOf_congr fun i behind inside => setEntry_from accepted small downward run ?_ ?_
    · exact (rawOff_mono (m := d.m.wide) le).1.trans behind
    · omega
  have self : d.m.wide.entryOf (d.m.wide.putEntry c value (d.m.wide.table d.disk)) c = value :=
    entryOf_putEntry_self covered fits
  refine ⟨?_, fun upward e less => ?_, fun downward e more short => ?_⟩
  · rcases upward_or_downward accepted with upward | downward
    · rw [before upward c le_rfl, self]
    · rw [after downward c le_rfl small, self]
  · rw [before upward e less.le, entryOf_putEntry_ne covered (Nat.ne_of_lt less)]
    rfl
  · rw [after downward e more.le short, entryOf_putEntry_ne covered (Nat.ne_of_gt more)]
    rfl

end Writing

end Ncd15.Fat
