import Ncd15.Xcpm.Console

/-!
# Numbers on the command line

`parse_num` computes modulo 2³² and refuses strings of more than ten digits only.  A numeral of
up to ten digits is read exactly when its value fits in 32 bits; what `putdec` and `puthex`
print is always read back.
-/

namespace Ncd15.Xcpm

section Numerals

/-- The value of a digit. -/
def digitOf (hex : Bool) (c : UInt8) : Option Nat :=
  if 48 ≤ c ∧ c ≤ 57 then some (c.toNat - 48)
  else if hex ∧ 65 ≤ c ∧ c ≤ 70 then some (c.toNat - 55)
  else if hex ∧ 97 ≤ c ∧ c ≤ 102 then some (c.toNat - 87)
  else none

/-- A decimal or hexadecimal numeral: its base and its digits. -/
structure Numeral where
  base : Nat
  digits : List Nat

/-- The number that digits add to one in front of them. -/
def valueFrom (base : Nat) (start : Nat) (digits : List Nat) : Nat :=
  digits.foldl (fun v d => v * base + d) start

def Numeral.value (n : Numeral) : Nat := valueFrom n.base 0 n.digits

/-- The digits behind the `0x`, or of a decimal string; a numeral has one at least. -/
def readNumeral (hex : Bool) (s : List UInt8) : Option Numeral :=
  if s = [] then none
  else (s.mapM (digitOf hex)).map fun digits => { base := if hex then 16 else 10, digits }

/-- The numeral that a string is. -/
def numeral (s : List UInt8) : Option Numeral :=
  match s with
  | 48 :: 120 :: rest => readNumeral true rest
  | 48 :: 88 :: rest => readNumeral true rest
  | s => readNumeral false s

end Numerals

section Parser

variable {hex : Bool} {n v : Nat} {c : UInt8} {s : List UInt8}

theorem toNat_toUpper (c : UInt8) :
    (toUpper c).toNat = if 97 ≤ c.toNat ∧ c.toNat ≤ 122 then c.toNat - 32 else c.toNat := by
  unfold toUpper
  simp only [UInt8.le_iff_toNat_le]
  by_cases lower : 97 ≤ c.toNat ∧ c.toNat ≤ 122
  · rw [if_pos lower, if_pos (by simpa using lower), UInt8.toNat_sub_of_le]
    · rfl
    · rw [UInt8.le_iff_toNat_le]
      exact Nat.le_trans (by decide) lower.1
  · rw [if_neg lower, if_neg (by simpa using lower)]

/-- `c` and `d` of `parse_num`. -/
theorem digit_eq (hex : Bool) (c : UInt8) :
    (if 48 ≤ (toUpper c).toNat ∧ (toUpper c).toNat ≤ 57 then some ((toUpper c).toNat - 48)
      else if hex ∧ 65 ≤ (toUpper c).toNat ∧ (toUpper c).toNat ≤ 70 then
        some ((toUpper c).toNat - 65 + 10) else none) = digitOf hex c := by
  have bounds (low high : UInt8) :
      (low ≤ c ∧ c ≤ high) = (low.toNat ≤ c.toNat ∧ c.toNat ≤ high.toNat) := by
    simp only [UInt8.le_iff_toNat_le]
  rw [digitOf, toNat_toUpper]
  simp only [bounds]
  grind

theorem parseDigits_cons (hex : Bool) (n v : Nat) (c : UInt8) (rest : List UInt8) :
    parseDigits hex n v (c :: rest) =
      (digitOf hex c).bind fun d => if 10 < n + 1 then none
        else parseDigits hex (n + 1) ((v * (if hex then 16 else 10) + d) % 2 ^ 32) rest := by
  rw [parseDigits]
  simp only [digit_eq]
  cases digitOf hex c with
  | none => rfl
  | some d => cases hex <;> rfl

/-- The loop wraps, and counts the digits. -/
theorem parseDigits_eq (hex : Bool) (v : Nat) (s : List UInt8) (few : n ≤ 10) :
    parseDigits hex n (v % 2 ^ 32) s =
      (s.mapM (digitOf hex)).bind fun ds =>
        if n + ds.length = 0 ∨ 10 < n + ds.length then none
        else some (valueFrom (if hex then 16 else 10) v ds % 2 ^ 32) := by
  induction s generalizing n v with
  | nil =>
      by_cases zero : n = 0
      · simp [parseDigits, zero]
      · simp [parseDigits, zero, few, valueFrom]
  | cons c rest ih =>
      rw [parseDigits_cons, List.mapM_cons]
      cases digit : digitOf hex c with
      | none => rfl
      | some d =>
          have wraps : (v % 2 ^ 32 * (if hex then 16 else 10) + d) % 2 ^ 32 =
              (v * (if hex then 16 else 10) + d) % 2 ^ 32 := by
            rw [Nat.add_mod, Nat.mod_mul_mod, ← Nat.add_mod]
          rw [Option.bind_some, wraps]
          by_cases many : 10 < n + 1
          · have refused (ds : List Nat) :
                n + (d :: ds).length = 0 ∨ 10 < n + (d :: ds).length := by
              rw [List.length_cons]
              omega
            rw [if_pos many]
            cases rest.mapM (digitOf hex) with
            | none => rfl
            | some ds => exact (if_pos (refused ds)).symm
          · rw [if_neg many, ih _ (by omega)]
            cases rest.mapM (digitOf hex) with
            | none => rfl
            | some ds =>
                have shift : n + 1 + ds.length = n + (d :: ds).length := by
                  rw [List.length_cons]
                  omega
                change (if n + 1 + ds.length = 0 ∨ 10 < n + 1 + ds.length then none
                  else some (valueFrom _ _ ds % 2 ^ 32)) = _
                rw [shift]
                rfl

theorem length_of_mapM {ds : List Nat} (mapped : s.mapM (digitOf hex) = some ds) :
    ds.length = s.length := by
  induction s generalizing ds with
  | nil => cases mapped; rfl
  | cons c rest ih =>
      rw [List.mapM_cons] at mapped
      obtain ⟨d, -, later⟩ := Option.bind_eq_some_iff.mp mapped
      obtain ⟨others, found, same⟩ := Option.bind_eq_some_iff.mp later
      cases same
      rw [List.length_cons, List.length_cons, ih found]

theorem parseDigits_start (hex : Bool) (s : List UInt8) :
    parseDigits hex 0 0 s =
      (readNumeral hex s).bind fun n =>
        if n.digits.length ≤ 10 then some (n.value % 2 ^ 32) else none := by
  have whole := parseDigits_eq hex 0 s (Nat.zero_le 10)
  rw [Nat.zero_mod] at whole
  rw [whole, readNumeral]
  cases s with
  | nil => rfl
  | cons c rest =>
      rw [if_neg (List.cons_ne_nil c rest)]
      cases digits : (c :: rest).mapM (digitOf hex) with
      | none => rfl
      | some ds =>
          have length : ds.length = (c :: rest).length := length_of_mapM digits
          have some_ : 0 + ds.length ≠ 0 := by
            rw [length, List.length_cons]
            omega
          change (if 0 + ds.length = 0 ∨ 10 < 0 + ds.length then none
            else some (valueFrom _ 0 ds % 2 ^ 32)) =
              if ds.length ≤ 10 then some (valueFrom _ 0 ds % 2 ^ 32) else none
          by_cases fits : ds.length ≤ 10
          · rw [if_pos fits, if_neg (by omega)]
          · rw [if_neg fits, if_pos (by omega)]

/-- `parse_num` reads a numeral of up to ten digits modulo 2³², and refuses all else. -/
theorem parseNum_eq (s : List UInt8) :
    parseNum s =
      (numeral s).bind fun n =>
        if n.digits.length ≤ 10 then some (n.value % 2 ^ 32) else none := by
  by_cases lower : ∃ rest, s = 48 :: 120 :: rest
  · obtain ⟨rest, rfl⟩ := lower
    exact parseDigits_start true rest
  · by_cases upper : ∃ rest, s = 48 :: 88 :: rest
    · obtain ⟨rest, rfl⟩ := upper
      exact parseDigits_start true rest
    · have parsed : parseNum s = parseDigits false 0 0 s := by
        unfold parseNum
        split
        · exact absurd ⟨_, rfl⟩ lower
        · exact absurd ⟨_, rfl⟩ upper
        · rfl
      have read : numeral s = readNumeral false s := by
        unfold numeral
        split
        · exact absurd ⟨_, rfl⟩ lower
        · exact absurd ⟨_, rfl⟩ upper
        · rfl
      rw [parsed, read]
      exact parseDigits_start false s

/-- What `parse_num` accepts is a numeral whose value fits, and it stores that value. -/
def ParsesExactly (s : List UInt8) : Prop :=
  ∀ v, parseNum s = some v → ∃ n, numeral s = some n ∧ v = n.value ∧ v < 2 ^ 32

/-- A numeral of up to ten digits fits in 32 bits. -/
def FitsWord (s : List UInt8) : Prop :=
  ∀ n, numeral s = some n → n.digits.length ≤ 10 → n.value < 2 ^ 32

theorem parsesExactly_iff (s : List UInt8) : ParsesExactly s ↔ FitsWord s := by
  constructor
  · intro exact_ n found short
    have parsed : parseNum s = some (n.value % 2 ^ 32) := by
      rw [parseNum_eq, found, Option.bind_some, if_pos short]
    obtain ⟨n', found', same, lt⟩ := exact_ _ parsed
    rw [found] at found'
    cases found'
    rw [same] at lt
    exact lt
  · intro fits v parsed
    rw [parseNum_eq] at parsed
    obtain ⟨n, found, value⟩ := Option.bind_eq_some_iff.mp parsed
    by_cases short : n.digits.length ≤ 10
    · rw [if_pos short] at value
      have lt := fits n found short
      have same : v = n.value := by
        rw [← Option.some.inj value, Nat.mod_eq_of_lt lt]
      exact ⟨n, found, same, same ▸ lt⟩
    · rw [if_neg short] at value
      cases value

end Parser

section Printed

variable {v : Nat}

theorem valueFrom_snoc (base start d : Nat) (ds : List Nat) :
    valueFrom base start (ds ++ [d]) = valueFrom base start ds * base + d := by
  rw [valueFrom, List.foldl_append]
  rfl

theorem digitOf_hexDigit (lt : v < 16) : digitOf true (hexDigit v) = some v := by
  revert v
  decide

theorem digitOf_decimal (lt : v < 10) : digitOf false (48 + UInt8.ofNat v) = some v := by
  revert v
  decide

/-- The digits of `puthex` stand for the low digits of the number. -/
theorem hexDigits_value (digits v : Nat) :
    ∃ ds, (hexDigits digits v).mapM (digitOf true) = some ds ∧ ds.length = digits ∧
      valueFrom 16 0 ds = v % 16 ^ digits := by
  induction digits generalizing v with
  | zero => exact ⟨[], rfl, rfl, (Nat.mod_one v).symm⟩
  | succ digits ih =>
      obtain ⟨ds, mapped, length, value⟩ := ih (v >>> 4)
      have last : v &&& 0xF = v % 16 := Nat.and_two_pow_sub_one_eq_mod v 4
      have digit := digitOf_hexDigit (Nat.mod_lt v (by decide : 0 < 16))
      refine ⟨ds ++ [v % 16], ?_, ?_, ?_⟩
      · rw [hexDigits, List.mapM_append, mapped, last, List.mapM_cons, digit]
        rfl
      · rw [List.length_append, length, List.length_singleton]
      · have shifted : v >>> 4 = v / 16 := Nat.shiftRight_eq_div_pow v 4
        rw [valueFrom_snoc, value, shifted, pow_succ', Nat.mod_mul]
        omega

/-- The digits of `putdec` stand for the number when there is room for them. -/
theorem decDigits_value {places room : Nat} (lt : v < 10 ^ room) (le : room ≤ places) :
    ∃ ds, (decDigits places v).mapM (digitOf false) = some ds ∧ ds.length ≤ room ∧
      valueFrom 10 0 ds = v := by
  induction places generalizing v room with
  | zero =>
      have zero : room = 0 := Nat.le_zero.mp le
      rw [zero, pow_zero] at lt
      exact ⟨[], rfl, Nat.zero_le _, (Nat.lt_one_iff.mp lt).symm⟩
  | succ places ih =>
      rw [decDigits]
      by_cases none : v = 0
      · rw [if_pos none]
        exact ⟨[], rfl, Nat.zero_le _, none.symm⟩
      · rw [if_neg none]
        obtain ⟨room, rfl⟩ : ∃ less, room = less + 1 := by
          cases room with
          | zero => rw [pow_zero] at lt; omega
          | succ room => exact ⟨room, rfl⟩
        have shorter : v / 10 < 10 ^ room := by
          rw [pow_succ] at lt
          omega
        obtain ⟨ds, mapped, length, value⟩ := ih shorter (Nat.le_of_succ_le_succ le)
        refine ⟨ds ++ [v % 10], ?_, ?_, ?_⟩
        · rw [List.mapM_append, mapped, List.mapM_cons,
            digitOf_decimal (Nat.mod_lt v (by decide))]
          rfl
        · rw [List.length_append, List.length_singleton]
          exact Nat.succ_le_succ length
        · rw [valueFrom_snoc, value]
          omega

theorem hexWidth_bounds (v : Nat) (digits : Int) :
    1 ≤ hexWidth v digits ∧ hexWidth v digits ≤ 8 := by
  unfold hexWidth
  dsimp only
  split <;> split <;> (try split) <;> omega

/-- The loop of `puthex` counts the digits that are needed. -/
theorem countDigits_eq (t digits : Nat) :
    ∃ more, countDigits t digits = digits + more ∧ t < 16 ^ more ∧
      ∀ m, t < 16 ^ m → more ≤ m := by
  induction t using Nat.strong_induction_on generalizing digits with
  | _ t ih =>
      rw [countDigits]
      by_cases zero : t = 0
      · rw [if_pos zero, zero]
        exact ⟨0, rfl, Nat.one_pos, fun m _ => Nat.zero_le m⟩
      · have shifted : t >>> 4 = t / 16 := Nat.shiftRight_eq_div_pow t 4
        rw [if_neg zero, shifted]
        obtain ⟨more, count, lt, least⟩ := ih (t / 16) (by omega) (digits + 1)
        refine ⟨more + 1, by omega, ?_, ?_⟩
        · rw [pow_succ]
          omega
        · intro m below
          cases m with
          | zero => rw [pow_zero] at below; omega
          | succ m =>
              rw [pow_succ] at below
              exact Nat.succ_le_succ (least m (by omega))

/-- With 0 for the number of digits, nothing is cut off. -/
theorem hexWidth_auto (lt : v < 2 ^ 32) : v < 16 ^ hexWidth v 0 := by
  have shifted : v >>> 4 = v / 16 := Nat.shiftRight_eq_div_pow v 4
  obtain ⟨more, count, covers, least⟩ := countDigits_eq (v >>> 4) 1
  have le : more ≤ 7 := least 7 (by omega)
  have width : hexWidth v 0 = 1 + more := by
    unfold hexWidth
    dsimp only
    rw [if_pos rfl, count, if_neg (by omega), if_neg (by omega), Int.toNat_natCast]
  rw [width, pow_add]
  omega

theorem parseNum_puthex (lt : v < 2 ^ 32) (digits : Int) :
    parseNum (48 :: 120 :: puthex v digits) = some (v % 16 ^ hexWidth v digits) := by
  obtain ⟨pos, le⟩ := hexWidth_bounds v digits
  obtain ⟨ds, mapped, length, value⟩ := hexDigits_value (hexWidth v digits) v
  have nonempty : hexDigits (hexWidth v digits) v ≠ [] := by
    intro empty
    have none := length_hexDigits (hexWidth v digits) v
    rw [empty, List.length_nil] at none
    omega
  have read : numeral (48 :: 120 :: puthex v digits) = some { base := 16, digits := ds } := by
    change readNumeral true (puthex v digits) = _
    rw [puthex_eq, readNumeral, if_neg nonempty, mapped]
    rfl
  have small : v % 16 ^ hexWidth v digits < 2 ^ 32 := Nat.lt_of_le_of_lt (Nat.mod_le _ _) lt
  rw [parseNum_eq, read, Option.bind_some, if_pos (by rw [length]; omega), Numeral.value, value,
    Nat.mod_eq_of_lt small]

theorem numeral_of_decimal {s : List UInt8} {ds : List Nat}
    (mapped : s.mapM (digitOf false) = some ds) : numeral s = readNumeral false s := by
  unfold numeral
  split
  · simp [digitOf] at mapped
  · simp [digitOf] at mapped
  · rfl

theorem parseNum_putdec (lt : v < 2 ^ 32) : parseNum (putdec v) = some v := by
  rw [putdec_eq]
  by_cases zero : v = 0
  · rw [if_pos zero, zero]
    rfl
  · have room : v < 10 ^ 10 := by omega
    obtain ⟨ds, mapped, length, value⟩ := decDigits_value room (by decide : 10 ≤ 11)
    have nonempty : decDigits 11 v ≠ [] := by
      intro empty
      rw [empty] at mapped
      cases mapped
      exact zero value.symm
    have read : numeral (decDigits 11 v) = some { base := 10, digits := ds } := by
      rw [numeral_of_decimal mapped, readNumeral, if_neg nonempty, mapped]
      rfl
    rw [if_neg zero, parseNum_eq, read, Option.bind_some, if_pos length, Numeral.value, value,
      Nat.mod_eq_of_lt lt]

/-- A string is read exactly or refused exactly when it is no numeral of up to ten digits with a
value beyond 32 bits; printed numbers are read back. -/
theorem parse_num_exact (s : List UInt8) (v : UInt32) (digits : Int) :
    (ParsesExactly s ↔ FitsWord s) ∧
      parseNum (putdec v.toNat) = some v.toNat ∧
      parseNum (48 :: 120 :: puthex v.toNat 0) = some v.toNat ∧
      parseNum (48 :: 120 :: puthex v.toNat digits) =
        some (v.toNat % 16 ^ hexWidth v.toNat digits) := by
  have lt : v.toNat < 2 ^ 32 := v.toNat_lt
  have auto : parseNum (48 :: 120 :: puthex v.toNat 0) = some v.toNat := by
    rw [parseNum_puthex lt, Nat.mod_eq_of_lt (hexWidth_auto lt)]
  exact ⟨parsesExactly_iff s, parseNum_putdec lt, auto, parseNum_puthex lt digits⟩

/-- The numeral 4294967296 is read as 0. -/
theorem parse_num_wraps : ¬ ParsesExactly (ascii "4294967296") := by
  intro exact_
  have parsed : parseNum (ascii "4294967296") = some 0 := by decide
  obtain ⟨n, found, same, -⟩ := exact_ 0 parsed
  have value : (numeral (ascii "4294967296")).map Numeral.value = some 4294967296 := by decide
  rw [found, Option.map_some, ← same] at value
  cases value

end Printed

end Ncd15.Xcpm
