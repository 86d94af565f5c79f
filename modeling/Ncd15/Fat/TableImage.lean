import Ncd15.Fat.Geometry

/-!
# The table as one buffer

A copy of the table seen as a single run of bytes, and the effect of an entry's
write on it.  FAT12 neighbors share a byte; no other entry is touched.
-/

namespace Ncd15.Fat

open Ncd15.Library

section Entry

variable {size : Nat}

/-- The value of an entry. -/
def Mount.entryOf (m : Mount) (t : Buffer size) (clus : Nat) : Nat :=
  match m.type with
  | .fat16 => t.loadLe (m.rawOff clus) 2
  | .fat32 => t.loadLe (m.rawOff clus) 4 % 2 ^ 28
  | _ => entry12 clus (t.get (m.rawOff clus)) (t.get (m.rawOff clus + 1))

/-- The bytes of an entry with a new value. -/
def Mount.entryBytes (m : Mount) (clus value : Nat) (t : Buffer size) : List UInt8 :=
  match m.type with
  | .fat16 => Buffer.leBytes 2 value
  | .fat32 => Buffer.leBytes 4 (t.loadLe (m.rawOff clus) 4 / 2 ^ 28 * 2 ^ 28 + value % 2 ^ 28)
  | _ => [low12 clus value (t.get (m.rawOff clus)), high12 clus value (t.get (m.rawOff clus + 1))]

/-- An entry replaced. -/
def Mount.putEntry (m : Mount) (clus value : Nat) (t : Buffer size) : Buffer size :=
  t.blit (m.rawOff clus) (m.entryBytes clus value t)

/-- The entries have 12 bits: `fat_type` is neither of the other two. -/
def Mount.Narrow (m : Mount) : Prop := m.type ≠ .fat16 ∧ m.type ≠ .fat32

theorem Mount.width_cases (m : Mount) : m.type = .fat16 ∨ m.type = .fat32 ∨ m.Narrow := by
  unfold Mount.Narrow
  cases m.type <;> simp

section Widths

variable {m : Mount} {t : Buffer size} {clus value : Nat}

theorem entryOf_fat16 (type : m.type = .fat16) :
    m.entryOf t clus = t.loadLe (clus * 2) 2 := by
  simp [Mount.entryOf, Mount.rawOff, type]

theorem entryOf_fat32 (type : m.type = .fat32) :
    m.entryOf t clus = t.loadLe (clus * 4) 4 % 2 ^ 28 := by
  simp [Mount.entryOf, Mount.rawOff, type]

theorem rawOff_narrow (narrow : m.Narrow) : m.rawOff clus = clus + clus / 2 := by
  unfold Mount.rawOff
  split <;> simp_all [Mount.Narrow]

theorem entryWidth_narrow (narrow : m.Narrow) : m.entryWidth = 2 := by
  unfold Mount.entryWidth
  split <;> simp_all [Mount.Narrow]

theorem entryBound_narrow (narrow : m.Narrow) : m.entryBound = 2 ^ 12 := by
  unfold Mount.entryBound
  split <;> simp_all [Mount.Narrow]

theorem entryOf_narrow (narrow : m.Narrow) :
    m.entryOf t clus =
      entry12 clus (t.get (m.rawOff clus)) (t.get (m.rawOff clus + 1)) := by
  unfold Mount.entryOf
  split <;> simp_all [Mount.Narrow]

theorem entryBytes_fat16 (type : m.type = .fat16) :
    m.entryBytes clus value t = Buffer.leBytes 2 value := by
  simp [Mount.entryBytes, type]

theorem entryBytes_fat32 (type : m.type = .fat32) :
    m.entryBytes clus value t =
      Buffer.leBytes 4 (t.loadLe (clus * 4) 4 / 2 ^ 28 * 2 ^ 28 + value % 2 ^ 28) := by
  simp [Mount.entryBytes, Mount.rawOff, type]

theorem entryBytes_narrow (narrow : m.Narrow) :
    m.entryBytes clus value t =
      [low12 clus value (t.get (m.rawOff clus)),
        high12 clus value (t.get (m.rawOff clus + 1))] := by
  unfold Mount.entryBytes
  split <;> simp_all [Mount.Narrow]

@[simp] theorem length_entryBytes : (m.entryBytes clus value t).length = m.entryWidth := by
  rcases m.width_cases with type | type | narrow
  · simp [entryBytes_fat16 type, Mount.entryWidth, type]
  · simp [entryBytes_fat32 type, Mount.entryWidth, type]
  · simp [entryBytes_narrow narrow, entryWidth_narrow narrow]

end Widths

section Neighbors

variable {clus clus' value : Nat} {b0 b1 b : UInt8}

theorem entry12_same (small : value < 2 ^ 12) :
    entry12 clus (low12 clus value b0) (high12 clus value b1) = value := by
  have low := b0.toNat_lt
  have high := b1.toNat_lt
  unfold entry12 low12 high12
  split <;> simp only [UInt8.toNat_ofNat'] <;> omega

/-- An odd entry keeps its value when the even entry below it is written. -/
theorem entry12_above (even : clus % 2 = 0) (odd : clus' % 2 = 1) :
    entry12 clus' (high12 clus value b) b1 = entry12 clus' b b1 := by
  have bound := b.toNat_lt
  simp only [entry12, high12, odd, even, if_true, Nat.zero_ne_one, if_false,
    UInt8.toNat_ofNat']
  omega

/-- An even entry keeps its value when the odd entry above it is written. -/
theorem entry12_below (odd : clus % 2 = 1) (even : clus' % 2 = 0) :
    entry12 clus' b0 (low12 clus value b) = entry12 clus' b0 b := by
  have bound := b.toNat_lt
  simp only [entry12, low12, odd, even, if_true, Nat.zero_ne_one, if_false,
    UInt8.toNat_ofNat']
  omega

end Neighbors

section Put

variable {m : Mount} {t : Buffer size} {clus clus' value : Nat}

theorem get_putEntry_of_disjoint {i : Nat}
    (disjoint : i < m.rawOff clus ∨ m.rawOff clus + m.entryWidth ≤ i) :
    (m.putEntry clus value t).get i = t.get i := by
  apply Buffer.get_blit_of_disjoint
  rwa [length_entryBytes]

theorem get_putEntry_low (narrow : m.Narrow) (fits : m.rawOff clus + m.entryWidth ≤ size) :
    (m.putEntry clus value t).get (m.rawOff clus) =
      low12 clus value (t.get (m.rawOff clus)) := by
  rw [entryWidth_narrow narrow] at fits
  rw [Mount.putEntry, entryBytes_narrow narrow, Buffer.get_blit_of_mem t le_rfl]
  · simp
  · simp
  · simpa using fits

theorem get_putEntry_high (narrow : m.Narrow) (fits : m.rawOff clus + m.entryWidth ≤ size) :
    (m.putEntry clus value t).get (m.rawOff clus + 1) =
      high12 clus value (t.get (m.rawOff clus + 1)) := by
  rw [entryWidth_narrow narrow] at fits
  rw [Mount.putEntry, entryBytes_narrow narrow, Buffer.get_blit_of_mem t (Nat.le_succ _)]
  · simp
  · simp
  · simpa using fits

theorem entryOf_putEntry_self (fits : m.rawOff clus + m.entryWidth ≤ size)
    (small : value < m.entryBound) : m.entryOf (m.putEntry clus value t) clus = value := by
  rcases m.width_cases with type | type | narrow
  · simp only [Mount.rawOff, Mount.entryWidth, Mount.entryBound, type] at fits small
    rw [entryOf_fat16 type, Mount.putEntry, entryBytes_fat16 type]
    simp only [Mount.rawOff, type]
    rw [Buffer.loadLe_blit_self _ _ _ _ fits]
    exact Nat.mod_eq_of_lt small
  · simp only [Mount.rawOff, Mount.entryWidth, Mount.entryBound, type] at fits small
    have old := t.loadLe_lt (clus * 4) 4
    rw [entryOf_fat32 type, Mount.putEntry, entryBytes_fat32 type]
    simp only [Mount.rawOff, type]
    rw [Buffer.loadLe_blit_self _ _ _ _ fits]
    omega
  · rw [entryBound_narrow narrow] at small
    rw [entryOf_narrow narrow, get_putEntry_low narrow fits, get_putEntry_high narrow fits,
      entry12_same small]

theorem entryOf_putEntry_ne (fits : m.rawOff clus + m.entryWidth ≤ size)
    (ne : clus' ≠ clus) : m.entryOf (m.putEntry clus value t) clus' = m.entryOf t clus' := by
  rcases m.width_cases with type | type | narrow
  · rw [entryOf_fat16 type, entryOf_fat16 type]
    apply Buffer.loadLe_congr
    intro i after before
    apply get_putEntry_of_disjoint
    simp only [Mount.rawOff, Mount.entryWidth, type]
    omega
  · rw [entryOf_fat32 type, entryOf_fat32 type]
    congr 1
    apply Buffer.loadLe_congr
    intro i after before
    apply get_putEntry_of_disjoint
    simp only [Mount.rawOff, Mount.entryWidth, type]
    omega
  · have off : m.rawOff clus = clus + clus / 2 := rawOff_narrow narrow
    have off' : m.rawOff clus' = clus' + clus' / 2 := rawOff_narrow narrow
    have width := entryWidth_narrow narrow
    rw [entryOf_narrow narrow, entryOf_narrow narrow]
    by_cases above : clus % 2 = 0 ∧ clus' = clus + 1
    · have shared : m.rawOff clus' = m.rawOff clus + 1 := by omega
      rw [shared, get_putEntry_high narrow fits, get_putEntry_of_disjoint (by omega)]
      exact entry12_above above.1 (by omega)
    by_cases below : clus % 2 = 1 ∧ clus' + 1 = clus
    · have shared : m.rawOff clus' + 1 = m.rawOff clus := by omega
      rw [shared, get_putEntry_low narrow fits, get_putEntry_of_disjoint (by omega)]
      exact entry12_below below.1 (by omega)
    · rw [get_putEntry_of_disjoint (by omega), get_putEntry_of_disjoint (by omega)]

end Put

end Entry

end Ncd15.Fat
