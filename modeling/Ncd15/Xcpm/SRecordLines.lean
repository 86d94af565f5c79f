import Ncd15.Xcpm.SRecords

/-!
# What a line does to the memory

A line reaches the loader up to its 255th character.  The bytes that the loader stores are those
of the digits behind the address, up to the first two that are no digits; the checksum comes
too late to prevent it.
-/

namespace Ncd15.Xcpm

open Ncd15.Library

section Digits

variable {text : List UInt8} {s : SrecState} {p : Nat}

/-- The bytes that pairs of digits stand for, up to the first pair that is none. -/
def goodBytes : List UInt8 → List UInt8
  | hi :: lo :: rest =>
      match hexNibble hi, hexNibble lo with
      | some hi, some lo => UInt8.ofNat (hi <<< 4 ||| lo) :: goodBytes rest
      | _, _ => []
  | _ => []

/-- The line buffer holds a text and a NUL behind it. -/
structure HasLine (s : SrecState) (text : List UInt8) : Prop where
  inside : s.line.inside = true
  short : text.length ≤ 255
  chars : ∀ i, i ≤ text.length → s.line.buf.get i = text.getD i 0

theorem HasLine.lineAt_run (line : HasLine s text) {p : Nat} (le : p < 256) :
    lineAt p s = some (s.line.buf.get p, s) := by
  rw [lineAt, line.inside, decide_eq_true le, Bool.and_true, ← line.inside]

/-- The byte that the first two characters stand for. -/
def byteOf (text : List UInt8) : Option UInt8 :=
  match hexNibble (text.getD 0 0), hexNibble (text.getD 1 0) with
  | some hi, some lo => some (UInt8.ofNat (hi <<< 4 ||| lo))
  | _, _ => none

theorem goodBytes_none (none : byteOf text = none) : goodBytes text = [] := by
  match text with
  | [] => rfl
  | [_] => rfl
  | hi :: lo :: rest =>
      simp only [byteOf, List.getD_cons_zero, List.getD_cons_succ] at none
      rw [goodBytes]
      cases high : hexNibble hi with
      | none => rfl
      | some h =>
          cases low : hexNibble lo with
          | none => rfl
          | some l => simp [high, low] at none

theorem goodBytes_some {b : UInt8} (found : byteOf text = some b) :
    goodBytes text = b :: goodBytes (text.drop 2) ∧ 2 ≤ text.length := by
  match text with
  | [] => cases found
  | [c] =>
      have nul : hexNibble 0 = none := rfl
      simp only [byteOf, List.getD_cons_zero, List.getD_cons_succ, List.getD_nil, nul] at found
      cases high : hexNibble c <;> simp [high] at found
  | hi :: lo :: rest =>
      simp only [byteOf, List.getD_cons_zero, List.getD_cons_succ] at found
      rw [goodBytes]
      cases high : hexNibble hi with
      | none => simp [high] at found
      | some h =>
          cases low : hexNibble lo with
          | none => simp [high, low] at found
          | some l =>
              simp only [high, low, Option.some.injEq] at found
              simp [found]

/-- Two digits are read where the text has them, and its NUL is none. -/
theorem HasLine.srecByte_run (line : HasLine s text) (le : p ≤ text.length)
    (even : p % 2 = 0) : srecByte p s = some (byteOf (text.drop p), s) := by
  have short := line.short
  have first := line.lineAt_run (by omega : p < 256)
  have second := line.lineAt_run (by omega : p + 1 < 256)
  have at_ (i : Nat) : (text.drop p).getD i 0 = text.getD (p + i) 0 := by
    simp only [List.getD_eq_getElem?_getD, List.getElem?_drop]
  have here : s.line.buf.get p = (text.drop p).getD 0 0 := (line.chars p le).trans (at_ 0).symm
  rw [srecByte, Prog.bind_eq_of_run first, Prog.bind_eq_of_run second, here, byteOf]
  by_cases last : p = text.length
  · -- Whatever is behind the NUL, it is not the second digit of a byte.
    have nul : (text.drop p).getD 0 0 = 0 := by
      rw [last, List.drop_length, List.getD_nil]
    rw [nul]
    rfl
  · have next : s.line.buf.get (p + 1) = (text.drop p).getD 1 0 :=
      (line.chars (p + 1) (by omega)).trans (at_ 1).symm
    rw [next]
    split <;> simp_all [Prog.pure_run]

/-- The number that an address and the bytes behind it are. -/
def joinBytes (a : UInt32) (bytes : List UInt8) : UInt32 :=
  bytes.foldl (fun a b => a <<< 8 ||| b.toUInt32) a

theorem HasLine.srecAddr_run (line : HasLine s text) (left : Nat) (a : UInt32)
    (le : p ≤ text.length) (even : p % 2 = 0) :
    srecAddr left p a s =
      some (if left ≤ (goodBytes (text.drop p)).length then
        some (joinBytes a ((goodBytes (text.drop p)).take left)) else none, s) := by
  induction left generalizing p a with
  | zero => rfl
  | succ left ih =>
      rw [srecAddr, Prog.bind_eq_of_run (line.srecByte_run le even)]
      cases found : byteOf (text.drop p) with
      | none =>
          rw [goodBytes_none found, if_neg (by simp)]
          rfl
      | some b =>
          obtain ⟨more, two⟩ := goodBytes_some found
          rw [List.length_drop] at two
          have rest := ih (a <<< 8 ||| b.toUInt32) (by omega : p + 2 ≤ text.length) (by omega)
          rw [more, List.drop_drop, List.length_cons, List.take_succ_cons]
          simp only [Nat.add_le_add_iff_right]
          exact rest

/-- The checksum over some bytes. -/
def sumBytes (cksum : UInt8) (bytes : List UInt8) : UInt8 := bytes.foldl (· + ·) cksum

/-- The loop stores each byte as it is read. -/
theorem HasLine.loadData_run (line : HasLine s text) (left : Nat) (dst : UInt32) (cksum : UInt8)
    (le : p ≤ text.length) (even : p % 2 = 0) :
    loadData left p dst cksum s =
      let bytes := (goodBytes (text.drop p)).take left
      let s' := { s with mem := s.mem.putAll dst bytes }
      some (if left ≤ (goodBytes (text.drop p)).length then (some (sumBytes cksum bytes), s')
        else (none, { s' with printed := s.printed ++ puts (ascii "?bad hex\r\n") })) := by
  induction left generalizing s p dst cksum with
  | zero => rfl
  | succ left ih =>
      rw [loadData, Prog.bind_eq_of_run (line.srecByte_run le even)]
      cases found : byteOf (text.drop p) with
      | none =>
          rw [goodBytes_none found]
          rfl
      | some b =>
          obtain ⟨more, two⟩ := goodBytes_some found
          rw [List.length_drop] at two
          have stored : HasLine { s with mem := s.mem.put dst b } text :=
            ⟨line.inside, line.short, line.chars⟩
          have rest := ih stored (dst + 1) (cksum + b) (by omega : p + 2 ≤ text.length) (by omega)
          rw [more, List.drop_drop, List.length_cons, List.take_succ_cons]
          simp only [Nat.add_le_add_iff_right]
          rw [Prog.modify_bind_run]
          exact rest

theorem byteOf_eq_head (text : List UInt8) : byteOf text = (goodBytes text).head? := by
  cases found : byteOf text with
  | none => rw [goodBytes_none found, List.head?_nil]
  | some b => rw [(goodBytes_some found).1, List.head?_cons]

theorem goodBytes_length (text : List UInt8) : 2 * (goodBytes text).length ≤ text.length := by
  induction size : text.length using Nat.strong_induction_on generalizing text with
  | _ n ih =>
      cases found : byteOf text with
      | none =>
          rw [goodBytes_none found]
          exact Nat.zero_le _
      | some b =>
          obtain ⟨more, two⟩ := goodBytes_some found
          have rest := ih (text.drop 2).length (by rw [List.length_drop]; omega) _ rfl
          rw [List.length_drop] at rest
          rw [more, List.length_cons]
          omega

theorem goodBytes_drop (text : List UInt8) (k : Nat) (le : k ≤ (goodBytes text).length) :
    goodBytes (text.drop (2 * k)) = (goodBytes text).drop k := by
  induction k generalizing text with
  | zero => rfl
  | succ k ih =>
      cases found : byteOf text with
      | none =>
          rw [goodBytes_none found] at le
          simp at le
      | some b =>
          obtain ⟨more, -⟩ := goodBytes_some found
          rw [more, List.length_cons] at le
          have rest := ih (text.drop 2) (Nat.le_of_succ_le_succ le)
          rw [List.drop_drop] at rest
          rw [more, List.drop_succ_cons, ← rest, Nat.mul_succ, Nat.add_comm]

end Digits

section Line

variable {text : List UInt8} {s : SrecState} {p : Nat}

/-- What reaches the memory of a line that begins so, with these bytes behind its type, and at
which address. -/
def depositOf (lead type : UInt8) : List UInt8 → UInt32 × List UInt8
  | [] => (0, [])
  | count :: rest =>
      let width := addrLen type / 2
      if lead = 83 ∧ width ≠ 0 ∧ width ≤ rest.length then
        (joinBytes 0 (rest.take width), (rest.drop width).take (count.toNat - width - 1))
      else (0, [])

/-- What of a line reaches the memory. -/
def deposit (text : List UInt8) : UInt32 × List UInt8 :=
  depositOf (text.getD 0 0) (text.getD 1 0) (goodBytes (text.drop 2))

theorem addrLen_half (type : UInt8) : 2 * (addrLen type / 2) = addrLen type := by
  unfold addrLen
  split <;> [rfl; split <;> [rfl; split <;> rfl]]

/-- The addresses of end records are read within the line buffer, whatever it holds. -/
theorem srecAddr_stays (inside : s.line.inside = true) (left : Nat) (a : UInt32)
    (le : p + 2 * left ≤ 256) : ∃ result, srecAddr left p a s = some (result, s) := by
  have read : ∀ i, i < 256 → lineAt i s = some (s.line.buf.get i, s) := by
    intro i small
    rw [lineAt, inside, decide_eq_true small, Bool.and_true, ← inside]
  induction left generalizing p a with
  | zero => exact ⟨some a, rfl⟩
  | succ left ih =>
      have byte : ∃ b, srecByte p s = some (b, s) := by
        rw [srecByte, Prog.bind_eq_of_run (read p (by omega)),
          Prog.bind_eq_of_run (read (p + 1) (by omega))]
        cases hexNibble (s.line.buf.get p) with
        | none => exact ⟨none, rfl⟩
        | some hi =>
            cases hexNibble (s.line.buf.get (p + 1)) with
            | none => exact ⟨none, rfl⟩
            | some lo => exact ⟨_, rfl⟩
      obtain ⟨b, run⟩ := byte
      rw [srecAddr, Prog.bind_eq_of_run run]
      cases b with
      | none => exact ⟨none, rfl⟩
      | some b => exact ih _ (by omega)

/-- The message about the checksum is all that it does. -/
theorem HasLine.checkSum_run (line : HasLine s text) (a : UInt32) (cksum : UInt8)
    (le : p ≤ text.length) (even : p % 2 = 0) :
    ∃ printed, checkSum a p cksum s = some ((), { s with printed := s.printed ++ printed }) ∧
      (byteOf (text.drop p) = some (~~~cksum) → printed = []) := by
  rw [checkSum, Prog.bind_eq_of_run (line.srecByte_run le even)]
  cases byteOf (text.drop p) with
  | none => exact ⟨_, rfl, fun same => by cases same⟩
  | some cklo =>
      by_cases same : ~~~cksum = cklo
      · refine ⟨[], ?_, fun _ => rfl⟩
        rw [List.append_nil]
        exact congrFun (if_neg (not_not.mpr same)) s
      · refine ⟨_, congrFun (if_pos same) s, ?_⟩
        intro found
        exact absurd (Option.some.inj found).symm same

/-- A record behind its count: what the text has of its data is stored, and nothing is said
when there is enough of it and the checksum is right. -/
theorem HasLine.loadRecord_run (line : HasLine s text) {type : UInt8} (count : UInt8)
    (counted : 4 ≤ text.length) (width : addrLen type ≠ 0)
    (enough : addrLen type / 2 ≤ (goodBytes (text.drop 4)).length) :
    let rest := goodBytes (text.drop 4)
    let a := joinBytes 0 (rest.take (addrLen type / 2))
    let room := count.toNat - addrLen type / 2 - 1
    let data := (rest.drop (addrLen type / 2)).take room
    ∃ printed, loadRecord type count s =
        some ((), { s with mem := s.mem.putAll a data, printed := s.printed ++ printed }) ∧
      ((rest.drop (addrLen type / 2))[room]? = some (~~~sumBytes (headSum count a) data) →
        printed = []) := by
  intro rest a room data
  have addr := line.srecAddr_run (addrLen type / 2) 0 counted rfl
  rw [if_pos enough] at addr
  have half := addrLen_half type
  have length : 2 * rest.length ≤ text.length - 4 := by
    rw [← List.length_drop]
    exact goodBytes_length (text.drop 4)
  have enough' : addrLen type / 2 ≤ rest.length := enough
  have behind : goodBytes (text.drop (4 + addrLen type)) = rest.drop (addrLen type / 2) := by
    have place : text.drop (4 + addrLen type) = (text.drop 4).drop (2 * (addrLen type / 2)) := by
      rw [half, List.drop_drop]
    rw [place, goodBytes_drop _ _ enough]
  have loaded := line.loadData_run room a (headSum count a)
    (by omega : 4 + addrLen type ≤ text.length) (by omega)
  rw [behind] at loaded
  rw [loadRecord]
  dsimp only
  rw [if_neg width, Prog.bind_eq_of_run addr]
  dsimp only
  by_cases full : room ≤ (rest.drop (addrLen type / 2)).length
  · dsimp only at loaded
    rw [if_pos full] at loaded
    rw [Prog.bind_eq_of_run loaded]
    have size := full
    rw [List.length_drop] at size
    have stored : HasLine { s with mem := s.mem.putAll a data } text :=
      ⟨line.inside, line.short, line.chars⟩
    obtain ⟨printed, run, quiet⟩ := stored.checkSum_run a (sumBytes (headSum count a) data)
      (p := 4 + addrLen type + 2 * room) (by omega) (by omega)
    refine ⟨printed, run, fun right => quiet ?_⟩
    have place : text.drop (4 + addrLen type + 2 * room) =
        (text.drop (4 + addrLen type)).drop (2 * room) := List.drop_drop.symm
    have last : goodBytes (text.drop (4 + addrLen type + 2 * room)) =
        (rest.drop (addrLen type / 2)).drop room := by
      rw [place, goodBytes_drop _ _ (by rw [behind]; exact full), behind]
    rw [byteOf_eq_head, last, List.head?_drop, right]
  · dsimp only at loaded
    rw [if_neg full] at loaded
    rw [Prog.bind_eq_of_run loaded]
    refine ⟨_, rfl, ?_⟩
    intro right
    rw [List.getElem?_eq_none (by omega)] at right
    cases right

theorem addrLen_ne_zero {type : UInt8} (width : addrLen type ≠ 0) :
    type = 49 ∨ type = 50 ∨ type = 51 := by
  unfold addrLen at width
  by_cases one : type = 49
  · exact .inl one
  · by_cases two : type = 50
    · exact .inr (.inl two)
    · by_cases three : type = 51
      · exact .inr (.inr three)
      · simp [one, two, three] at width

/-- Nothing is stored for a line that does not begin like a record with data. -/
theorem deposit_nothing (off : text.getD 0 0 = 83 → addrLen (text.getD 1 0) ≠ 0 →
    ∀ count rest, goodBytes (text.drop 2) = count :: rest →
      rest.length < addrLen (text.getD 1 0) / 2) : (deposit text).2 = [] := by
  rw [deposit]
  cases bytes : goodBytes (text.drop 2) with
  | nil => rfl
  | cons count rest =>
      rw [depositOf]
      by_cases holds : text.getD 0 0 = 83 ∧ addrLen (text.getD 1 0) / 2 ≠ 0 ∧
          addrLen (text.getD 1 0) / 2 ≤ rest.length
      · have width : addrLen (text.getD 1 0) ≠ 0 := fun zero => holds.2.1 (by rw [zero])
        have less := off holds.1 width count rest bytes
        omega
      · rw [if_neg holds]

theorem HasLine.dataLine_run (line : HasLine s text) (lead : text.getD 0 0 = 83)
    (two : 2 ≤ text.length) :
    ∃ printed, dataLine (text.getD 1 0) s = some ((), { s with
      mem := s.mem.putAll (deposit text).1 (deposit text).2
      printed := s.printed ++ printed }) := by
  rw [dataLine, Prog.bind_eq_of_run (line.srecByte_run two rfl)]
  cases found : byteOf (text.drop 2) with
  | none =>
      have nothing : (deposit text).2 = [] := by
        apply deposit_nothing
        intro _ _ count rest bytes
        rw [goodBytes_none found] at bytes
        cases bytes
      rw [nothing]
      exact ⟨_, rfl⟩
  | some count =>
      obtain ⟨more, four⟩ := goodBytes_some found
      rw [List.length_drop] at four
      rw [List.drop_drop] at more
      dsimp only
      by_cases zero : count < 1
      · have none : count.toNat = 0 := by
          have lt := UInt8.lt_iff_toNat_lt.mp zero
          exact Nat.lt_one_iff.mp lt
        have nothing : (deposit text).2 = [] := by
          rw [deposit, more, depositOf]
          split
          · rw [none]
            simp
          · rfl
        rw [if_pos zero, nothing]
        exact ⟨_, rfl⟩
      · rw [if_neg zero]
        by_cases width : addrLen (text.getD 1 0) = 0
        · have nothing : (deposit text).2 = [] :=
            deposit_nothing fun _ other => absurd width other
          rw [loadRecord, nothing]
          dsimp only
          rw [if_pos width]
          refine ⟨[], ?_⟩
          rw [List.append_nil]
          rfl
        · by_cases enough : addrLen (text.getD 1 0) / 2 ≤ (goodBytes (text.drop 4)).length
          · obtain ⟨printed, run, -⟩ :=
              line.loadRecord_run count (by omega) width enough
            refine ⟨printed, ?_⟩
            have half := addrLen_half (text.getD 1 0)
            rw [run, deposit, more, depositOf, if_pos ⟨lead, by omega, enough⟩]
          · have nothing : (deposit text).2 = [] := by
              apply deposit_nothing
              intro _ _ count' rest bytes
              rw [more] at bytes
              cases bytes
              exact Nat.lt_of_not_le enough
            have addr := line.srecAddr_run (addrLen (text.getD 1 0) / 2) 0
              (by omega : 4 ≤ text.length) rfl
            rw [if_neg enough] at addr
            rw [loadRecord, nothing]
            dsimp only
            rw [if_neg width, Prog.bind_eq_of_run addr]
            exact ⟨_, rfl⟩

theorem endRecord_run (inside : s.line.inside = true) (type : UInt8) :
    ∃ result printed, endRecord type s =
      some (result, { s with printed := s.printed ++ printed }) := by
  have width : 4 + 2 * ((if type = 55 then 8 else if type = 56 then 6 else 4) / 2) ≤ 256 := by
    split
    · decide
    · split <;> decide
  obtain ⟨entry, run⟩ := srecAddr_stays inside _ 0 width
  rw [endRecord, Prog.bind_eq_of_run run]
  cases entry with
  | none => exact ⟨_, _, rfl⟩
  | some entry => exact ⟨_, _, rfl⟩

/-- With a line, the loader stores what the line has to store, and nothing else. -/
theorem HasLine.loadLine_run (line : HasLine s text) (nonempty : text ≠ []) :
    ∃ next printed, loadLine s = some (next, { s with
      mem := s.mem.putAll (deposit text).1 (deposit text).2
      printed := s.printed ++ printed }) := by
  have pos : 0 < text.length := List.length_pos_iff.mpr nonempty
  have short := line.short
  have first := line.lineAt_run (by decide : 0 < 256)
  rw [line.chars 0 (Nat.zero_le _)] at first
  have second := line.lineAt_run (by decide : 1 < 256)
  rw [line.chars 1 pos] at second
  rw [loadLine, Prog.bind_eq_of_run first]
  by_cases lead : text.getD 0 0 = 83
  · rw [if_neg (not_not.mpr lead), Prog.bind_eq_of_run second]
    by_cases ends : text.getD 1 0 = 55 ∨ text.getD 1 0 = 56 ∨ text.getD 1 0 = 57
    · have nothing : (deposit text).2 = [] := by
        apply deposit_nothing
        intro _ width
        rcases addrLen_ne_zero width with one | two | three <;> simp_all
      obtain ⟨result, printed, run⟩ := endRecord_run line.inside (text.getD 1 0)
      rw [if_pos ends, Prog.bind_eq_of_run run, nothing]
      exact ⟨.inr result, printed, rfl⟩
    · rw [if_neg ends]
      by_cases other : text.getD 1 0 < 48 ∨ 53 < text.getD 1 0
      · have nothing : (deposit text).2 = [] := by
          apply deposit_nothing
          intro _ width
          rcases addrLen_ne_zero width with one | two | three <;> simp_all
        rw [if_pos other, nothing]
        refine ⟨.inl (), [], ?_⟩
        rw [List.append_nil]
        rfl
      · have two : 2 ≤ text.length := by
          by_contra single
          rw [List.getD_eq_default _ _ (by omega)] at other
          exact other (.inl (by decide))
        obtain ⟨printed, run⟩ := line.dataLine_run lead two
        rw [if_neg other, Prog.bind_eq_of_run run]
        exact ⟨.inl (), printed, rfl⟩
  · have nothing : (deposit text).2 = [] := deposit_nothing fun there => absurd there lead
    rw [if_pos lead, nothing]
    exact ⟨_, _, rfl⟩

end Line

section Reading

variable {text rest : List UInt8} {s : SrecState} {e : UInt8}

/-- Characters that end no line and do not abort. -/
def Plain (text : List UInt8) : Prop := ∀ c ∈ text, c ≠ 13 ∧ c ≠ 10 ∧ c ≠ 3

theorem plain_of_all (all : text.all (fun c => c ≠ 13 && c ≠ 10 && c ≠ 3) = true) :
    Plain text := by
  intro c member
  simpa [and_assoc] using List.all_eq_true.mp all c member

/-- What a buffer holds of a line that is being read. -/
structure Filled (line : Watched 256) (text : List UInt8) : Prop where
  inside : line.inside = true
  short : text.length ≤ 255
  chars : ∀ i, i < text.length → line.buf.get i = text.getD i 0

theorem Filled.store {line : Watched 256} (filled : Filled line text) (c : UInt8)
    (room : text.length < 255) : Filled (line.store text.length c) (text ++ [c]) where
  inside := by simp [filled.inside]; omega
  short := by rw [List.length_append, List.length_singleton]; omega
  chars i small := by
    rw [List.length_append, List.length_singleton] at small
    by_cases last : i = text.length
    · subst last
      rw [Watched.get_store _ _ (by omega)]
      simp
    · rw [Watched.get_store_ne _ _ last, filled.chars i (by omega),
        List.getD_append _ _ _ _ (by omega)]

/-- A line is read up to its end, and what has no room is dropped. -/
theorem readChars_line {line : Watched 256} {before : List UInt8} (rest : List UInt8)
    (filled : Filled line before) (plain : Plain text) (ends : e = 13 ∨ e = 10)
    (nonempty : before ++ text ≠ []) :
    ∃ n line', readChars 256 (text ++ e :: rest) line before.length =
        some (some n, rest, line') ∧
      line'.inside = true ∧
      ∀ i, i ≤ ((before ++ text).take 255).length →
        line'.buf.get i = ((before ++ text).take 255).getD i 0 := by
  have short := filled.short
  induction text generalizing before line with
  | nil =>
      rw [List.append_nil] at nonempty ⊢
      have pos : 0 < before.length := List.length_pos_iff.mpr nonempty
      rw [List.take_of_length_le short]
      refine ⟨before.length, line.store before.length 0, ?_, ?_, ?_⟩
      · rw [List.nil_append, readChars, if_pos ends, if_pos pos]
      · simp [filled.inside]
        omega
      · intro i le
        by_cases last : i = before.length
        · rw [last, Watched.get_store _ _ (by omega), List.getD_eq_default _ _ (Nat.le_refl _)]
        · rw [Watched.get_store_ne _ _ last, filled.chars i (by omega)]
  | cons c text ih =>
      obtain ⟨notEnd, notFeed, notAbort⟩ := plain c List.mem_cons_self
      have plain' : Plain text := fun d member => plain d (List.mem_cons_of_mem c member)
      have goes : ¬ (c = 13 ∨ c = 10) := by simp [notEnd, notFeed]
      rw [List.cons_append, readChars, if_neg goes, if_neg notAbort]
      by_cases room : before.length < 255
      · have filled' := filled.store c room
        have next := ih filled' plain' (by simp) filled'.short
        rw [List.length_append, List.length_singleton, List.append_assoc,
          List.singleton_append] at next
        rw [if_pos room]
        exact next
      · have full : before.length = 255 := by omega
        have same : (before ++ c :: text).take 255 = (before ++ text).take 255 := by
          rw [← full, List.take_left, List.take_left]
        have nonempty' : before ++ text ≠ [] := by
          intro empty
          have none := congrArg List.length empty
          rw [List.length_append, List.length_nil] at none
          omega
        rw [if_neg room, same]
        exact ih filled plain' nonempty' short

/-- Line ends in front of a line are passed over. -/
theorem readChars_ends {seps : List UInt8} (line : Watched 256)
    (all : ∀ c ∈ seps, c = 13 ∨ c = 10) :
    readChars 256 (seps ++ rest) line 0 = readChars 256 rest line 0 := by
  induction seps with
  | nil => rfl
  | cons c seps ih =>
      rw [List.cons_append, readChars, if_pos (all c List.mem_cons_self),
        if_neg (Nat.lt_irrefl 0)]
      exact ih fun d member => all d (List.mem_cons_of_mem c member)

/-- The loader has read the next line, as far as it has room for it. -/
theorem srecReadLine_run {seps : List UInt8} (inside : s.line.inside = true)
    (input : s.input = seps ++ (text ++ e :: rest)) (all : ∀ c ∈ seps, c = 13 ∨ c = 10)
    (plain : Plain text) (ends : e = 13 ∨ e = 10) (nonempty : text ≠ []) :
    ∃ n line, srecReadLine s = some (some n, { s with input := rest, line := line }) ∧
      HasLine { s with input := rest, line := line } (text.take 255) := by
  have filled : Filled s.line [] :=
    ⟨inside, Nat.zero_le _, fun i small => absurd small (Nat.not_lt_zero i)⟩
  obtain ⟨n, line, run, inside', chars⟩ :=
    readChars_line rest filled plain ends (by simpa using nonempty)
  rw [List.length_nil] at run
  refine ⟨n, line, ?_, inside', List.length_take_le _ _, chars⟩
  rw [srecReadLine, input, readChars_ends s.line all, run]
  rfl

end Reading

end Ncd15.Xcpm
