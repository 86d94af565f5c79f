import Ncd15.Xcpm.SRecordLines

/-!
# When loading a record is all or nothing

A right record should be stored whole and everything else not at all.  The loader does so for
right records that fit in its line buffer, and for lines that do not even begin with data.
-/

namespace Ncd15.Xcpm

open Ncd15.Library

section Records

/-- The bytes that a text of digits stands for. -/
def hexBytes : List UInt8 → Option (List UInt8)
  | [] => some []
  | [_] => none
  | hi :: lo :: rest => do
      let hi ← hexNibble hi
      let lo ← hexNibble lo
      let bytes ← hexBytes rest
      some (UInt8.ofNat (hi <<< 4 ||| lo) :: bytes)

/-- The parts of a data record. -/
structure SRecord where
  count : UInt8
  addr : List UInt8
  data : List UInt8
  sum : UInt8
  deriving DecidableEq

/-- The record behind its type: the count says how many bytes follow, an address of this width,
the data and the checksum. -/
def SRecord.ofBytes (width : Nat) : List UInt8 → Option SRecord
  | [] => none
  | count :: rest =>
      if width ≠ 0 ∧ width < rest.length ∧ count.toNat = rest.length then
        some { count, addr := rest.take width, data := (rest.drop width).dropLast,
               sum := rest.getLastD 0 }
      else none

/-- The data record that a line is, when it is well formed. -/
def recordOf : List UInt8 → Option SRecord
  | lead :: type :: digits =>
      if lead = 83 then (hexBytes digits).bind (SRecord.ofBytes (addrLen type / 2)) else none
  | _ => none

/-- The bytes of the record and its checksum add up to 0xFF. -/
def SRecord.Right (r : SRecord) : Prop :=
  sumBytes 0 (r.count :: (r.addr ++ r.data ++ [r.sum])) = 0xFF

instance (r : SRecord) : Decidable r.Right := inferInstanceAs (Decidable (_ = _))

/-- The memory after a line that is loaded as a whole or not at all. -/
def expected (text : List UInt8) (m : Flat) : Flat :=
  match recordOf text with
  | none => m
  | some r => if r.Right then m.putAll (joinBytes 0 r.addr) r.data else m

/-- A line as the console delivers it. -/
structure ConsoleLine where
  text : List UInt8
  nonempty : text ≠ []
  plain : Plain text

/-- Whatever the loader and its line buffer held before, it stores the line as a whole or not at
all, and it stays within its line buffer. -/
def AllOrNothing (l : ConsoleLine) : Prop :=
  ∀ (s : SrecState) (e : UInt8) (rest : List UInt8), s.line.inside = true →
    (e = 13 ∨ e = 10) → s.input = l.text ++ e :: rest →
    ∃ next s', loadRound () s = some (next, s') ∧ s'.line.inside = true ∧ s'.input = rest ∧
      s'.mem = expected l.text s.mem

/-- The line begins like a record with data: the digits of the first byte of data are there, and
the count covers it. -/
def BeginsData (text : List UInt8) : Prop :=
  text.getD 0 0 = 83 ∧ addrLen (text.getD 1 0) ≠ 0 ∧
    ∃ count rest, goodBytes (text.drop 2) = count :: rest ∧
      addrLen (text.getD 1 0) / 2 + 2 ≤ count.toNat ∧ addrLen (text.getD 1 0) / 2 < rest.length

/-- The line is a right record of up to 126 bytes behind its count, or has no data that could be
stored. -/
def SafeLine (text : List UInt8) : Prop :=
  (∃ r, recordOf text = some r ∧ r.Right ∧ r.count.toNat ≤ 126) ∨ ¬ BeginsData text

end Records

section Effect

variable {text : List UInt8}

theorem loadRound_run (l : ConsoleLine) {s : SrecState} {e : UInt8} {rest : List UInt8}
    (inside : s.line.inside = true) (ends : e = 13 ∨ e = 10)
    (input : s.input = l.text ++ e :: rest) :
    ∃ next s', loadRound () s = some (next, s') ∧ s'.line.inside = true ∧ s'.input = rest ∧
      s'.mem = s.mem.putAll (deposit (l.text.take 255)).1 (deposit (l.text.take 255)).2 := by
  have start : s.input = [] ++ (l.text ++ e :: rest) := input
  obtain ⟨n, line, read, held⟩ := srecReadLine_run inside start (by simp) l.plain ends
    l.nonempty
  have nonempty : l.text.take 255 ≠ [] := by
    intro empty
    rcases List.take_eq_nil_iff.mp empty with none | none
    · cases none
    · exact l.nonempty none
  obtain ⟨next, printed, loaded⟩ := held.loadLine_run nonempty
  have run : loadRound () s = loadLine { s with input := rest, line := line } :=
    Prog.bind_eq_of_run read
  exact ⟨next, _, run.trans loaded, held.inside, rfl, rfl⟩

/-- What is stored is what is expected, in every memory. -/
theorem allOrNothing_iff_same (l : ConsoleLine) :
    AllOrNothing l ↔ ∀ m : Flat,
      m.putAll (deposit (l.text.take 255)).1 (deposit (l.text.take 255)).2 =
        expected l.text m := by
  constructor
  · intro all m
    let s : SrecState :=
      { input := l.text ++ [13], line := { buf := Buffer.zero, inside := true }, mem := m,
        printed := [] }
    obtain ⟨next, s', run, -, -, mem⟩ := all s 13 [] rfl (.inl rfl) rfl
    obtain ⟨next', s'', run', -, -, mem'⟩ := loadRound_run l (s := s) rfl (.inl rfl) rfl
    rw [run] at run'
    cases run'
    exact mem'.symm.trans mem
  · intro same s e rest inside ends input
    obtain ⟨next, s', run, inside', input', mem⟩ := loadRound_run l inside ends input
    exact ⟨next, s', run, inside', input', mem.trans (same s.mem)⟩

/-- A record that is read in halves: 253 characters behind the type are 126 bytes at most. -/
theorem goodBytes_take (text : List UInt8) (k : Nat) :
    goodBytes (text.take (2 * k + 1)) = (goodBytes text).take k := by
  induction k generalizing text with
  | zero =>
      cases text with
      | nil => rfl
      | cons c rest => simp [goodBytes]
  | succ k ih =>
      rcases text with _ | ⟨hi, _ | ⟨lo, rest⟩⟩
      · rfl
      · rfl
      · rw [show 2 * (k + 1) + 1 = 2 * k + 1 + 1 + 1 by omega, List.take_succ_cons,
          List.take_succ_cons, goodBytes, goodBytes]
        cases hexNibble hi with
        | none => rfl
        | some h =>
            cases hexNibble lo with
            | none => rfl
            | some l => exact congrArg _ (ih rest)

/-- What the loader stores of a line, in terms of the whole line. -/
theorem deposit_take (text : List UInt8) :
    deposit (text.take 255) =
      depositOf (text.getD 0 0) (text.getD 1 0) ((goodBytes (text.drop 2)).take 126) := by
  have first : (text.take 255).getD 0 0 = text.getD 0 0 := by
    simp [List.getD_eq_getElem?_getD]
  have second : (text.take 255).getD 1 0 = text.getD 1 0 := by
    simp [List.getD_eq_getElem?_getD]
  have bytes : goodBytes ((text.take 255).drop 2) = (goodBytes (text.drop 2)).take 126 := by
    rw [List.drop_take]
    exact goodBytes_take (text.drop 2) 126
  rw [deposit, first, second, bytes]

theorem addrLen_half_le (type : UInt8) : addrLen type / 2 ≤ 4 := by
  unfold addrLen
  split
  · decide
  · split
    · decide
    · split <;> decide

/-- Data is stored exactly for lines that begin like a record with data. -/
theorem deposit_nonempty_iff (text : List UInt8) :
    (deposit (text.take 255)).2 ≠ [] ↔ BeginsData text := by
  have width := addrLen_half_le (text.getD 1 0)
  have half := addrLen_half (text.getD 1 0)
  rw [deposit_take, ← List.length_pos_iff]
  cases bytes : goodBytes (text.drop 2) with
  | nil =>
      apply iff_of_false (by simp [depositOf])
      rintro ⟨-, -, count, rest, begins, -⟩
      rw [bytes] at begins
      cases begins
  | cons count rest =>
      rw [List.take_succ_cons, depositOf]
      by_cases lead : text.getD 0 0 = 83 ∧ addrLen (text.getD 1 0) / 2 ≠ 0 ∧
          addrLen (text.getD 1 0) / 2 ≤ (rest.take 125).length
      · rw [if_pos lead]
        simp only [List.length_take, List.length_drop]
        constructor
        · intro pos
          exact ⟨lead.1, by omega, count, rest, bytes, by omega, by omega⟩
        · rintro ⟨-, -, count', rest', begins, counted, more⟩
          rw [bytes] at begins
          cases begins
          omega
      · rw [if_neg lead]
        apply iff_of_false (by simp)
        rintro ⟨first, nonzero, count', rest', begins, counted, more⟩
        rw [bytes] at begins
        cases begins
        apply lead
        rw [List.length_take]
        exact ⟨first, by omega, by omega⟩

theorem goodBytes_of_hexBytes {digits bytes : List UInt8} (read : hexBytes digits = some bytes) :
    goodBytes digits = bytes := by
  fun_induction hexBytes digits generalizing bytes with
  | case1 =>
      cases read
      rfl
  | case2 => cases read
  | case3 hi lo rest ih =>
      obtain ⟨h, high, later⟩ := Option.bind_eq_some_iff.mp read
      obtain ⟨l, low, later⟩ := Option.bind_eq_some_iff.mp later
      obtain ⟨others, found, same⟩ := Option.bind_eq_some_iff.mp later
      rw [goodBytes, high, low, ← Option.some.inj same, ih found]

/-- Of a well-formed record the loader stores what it has room for in its line buffer. -/
theorem deposit_record {r : SRecord} (record : recordOf text = some r) :
    deposit (text.take 255) = (joinBytes 0 r.addr, r.data.take (125 - r.addr.length)) ∧
      r.addr.length ≤ 4 ∧ r.count.toNat = r.addr.length + r.data.length + 1 := by
  match text with
  | [] => cases record
  | [_] => cases record
  | lead :: type :: digits =>
      rw [recordOf] at record
      by_cases starts : lead = 83
      · rw [if_pos starts] at record
        obtain ⟨bytes, read, parts⟩ := Option.bind_eq_some_iff.mp record
        cases bytes with
        | nil => cases parts
        | cons count rest =>
            rw [SRecord.ofBytes] at parts
            by_cases valid : addrLen type / 2 ≠ 0 ∧ addrLen type / 2 < rest.length ∧
                count.toNat = rest.length
            · rw [if_pos valid] at parts
              cases parts
              have width := addrLen_half_le type
              obtain ⟨nonzero, more, counted⟩ := valid
              have addr : (rest.take (addrLen type / 2)).length = addrLen type / 2 := by
                rw [List.length_take]
                omega
              have data : (rest.drop (addrLen type / 2)).dropLast =
                  (rest.drop (addrLen type / 2)).take (rest.length - addrLen type / 2 - 1) := by
                rw [List.dropLast_eq_take, List.length_drop]
              refine ⟨?_, by rw [addr]; exact width, ?_⟩
              · have held : addrLen type / 2 ≤ (rest.take 125).length := by
                  rw [List.length_take]
                  omega
                have front : (rest.take 125).take (addrLen type / 2) =
                    rest.take (addrLen type / 2) := by
                  rw [List.take_take, Nat.min_eq_left (by omega)]
                rw [deposit_take, List.drop_succ_cons, List.drop_succ_cons, List.drop_zero,
                  goodBytes_of_hexBytes read, List.take_succ_cons, depositOf,
                  List.getD_cons_succ, List.getD_cons_zero, List.getD_cons_zero,
                  if_pos ⟨starts, nonzero, held⟩]
                dsimp only
                rw [front, addr, data, counted, List.drop_take, List.take_take, List.take_take,
                  Nat.min_comm]
              · dsimp only
                rw [addr, data, List.length_take, List.length_drop]
                omega
            · rw [if_neg valid] at parts
              cases parts
      · rw [if_neg starts] at record
        cases record

theorem deposit_length_le (text : List UInt8) :
    (deposit (text.take 255)).2.length ≤ 126 := by
  rw [deposit_take]
  cases bytes : (goodBytes (text.drop 2)).take 126 with
  | nil => simp [depositOf]
  | cons count rest =>
      have short : (count :: rest).length ≤ 126 := by
        rw [← bytes, List.length_take]
        exact Nat.min_le_left _ _
      rw [List.length_cons] at short
      rw [depositOf]
      split
      · simp only [List.length_take, List.length_drop]
        omega
      · simp

/-- A line that may not be stored is not stored exactly when it does not begin with data. -/
theorem same_kept_iff (kept : ∀ m : Flat, expected text m = m) :
    (∀ m : Flat,
      m.putAll (deposit (text.take 255)).1 (deposit (text.take 255)).2 = expected text m) ↔
      ¬ BeginsData text := by
  rw [← deposit_nonempty_iff, not_not]
  constructor
  · intro same
    have short := deposit_length_le text
    have none : (deposit (text.take 255)).2.length ≤ 0 := by
      apply Flat.length_le_of_putAll_take (by omega)
      intro m
      rw [List.take_zero, Flat.putAll_nil, same m, kept m]
    exact List.length_eq_zero_iff.mp (by omega)
  · intro nothing m
    rw [nothing, kept m, Flat.putAll_nil]

/-- A right record is stored as a whole exactly when its data fits in the line buffer. -/
theorem same_record_iff {r : SRecord} (record : recordOf text = some r) (right : r.Right) :
    (∀ m : Flat,
      m.putAll (deposit (text.take 255)).1 (deposit (text.take 255)).2 = expected text m) ↔
      r.data.length ≤ 125 - r.addr.length := by
  obtain ⟨stored, width, counted⟩ := deposit_record record
  have byte := r.count.toNat_lt
  have kept : ∀ m : Flat, expected text m = m.putAll (joinBytes 0 r.addr) r.data := by
    intro m
    rw [expected, record]
    exact if_pos right
  rw [stored]
  constructor
  · intro same
    exact Flat.length_le_of_putAll_take (by omega) fun m => (same m).trans (kept m)
  · intro fits m
    rw [kept m, List.take_of_length_le fits]

/-- Loading is all or nothing exactly for the lines that are right records of up to 126 bytes,
and for those without data that could be stored. -/
theorem allOrNothing_iff (l : ConsoleLine) : AllOrNothing l ↔ SafeLine l.text := by
  rw [allOrNothing_iff_same, SafeLine]
  cases record : recordOf l.text with
  | none =>
      have kept : ∀ m : Flat, expected l.text m = m := fun m => by rw [expected, record]
      rw [same_kept_iff kept]
      simp
  | some r =>
      by_cases right : r.Right
      · rw [same_record_iff record right]
        obtain ⟨stored, width, counted⟩ := deposit_record record
        constructor
        · intro fits
          exact .inl ⟨r, rfl, right, by omega⟩
        · rintro (⟨r', found, -, short⟩ | nothing)
          · cases found
            omega
          · have none := not_not.mp (mt (deposit_nonempty_iff l.text).mp nothing)
            rw [stored, List.take_eq_nil_iff] at none
            rcases none with full | empty
            · omega
            · rw [empty]
              exact Nat.zero_le _
      · have kept : ∀ m : Flat, expected l.text m = m := fun m => by
          rw [expected, record]
          exact if_neg right
        rw [same_kept_iff kept]
        simp [right]

/-- A record with a wrong checksum. -/
def wrongSum : ConsoleLine where
  text := ascii "S10400004100"
  nonempty := by decide
  plain := plain_of_all (by decide)

/-- Its byte of data is stored all the same. -/
theorem wrong_sum_is_stored :
    recordOf wrongSum.text = some { count := 4, addr := [0, 0], data := [0x41], sum := 0 } ∧
      ¬ AllOrNothing wrongSum := by
  refine ⟨by decide, fun all => ?_⟩
  have stored := (allOrNothing_iff_same wrongSum).mp all fun _ => 0
  have zero := congrFun stored 0
  exact absurd zero (by decide)

end Effect

end Ncd15.Xcpm
