import Ncd15.Library.Sextets
import Ncd15.Xcpm.Console
import Ncd15.Xcpm.Tokenizer

/-!
# Base64 and uuencode

Both commands print three bytes as four characters of six bits each.  The decoders print the
bytes that were encoded, whatever their number.
-/

namespace Ncd15.Xcpm

open Ncd15.Library

section Base64

/-- `b64chars[v]`. -/
def b64Char (v : Nat) : UInt8 :=
  (ascii "ABCDEFGHIJKLMNOPQRSTUVWXYZabcdefghijklmnopqrstuvwxyz0123456789+/").getD v 0

/-- `b64_index`. -/
def b64Index (c : UInt8) : Int :=
  if 65 ≤ c ∧ c ≤ 90 then c.toNat - 65
  else if 97 ≤ c ∧ c ≤ 122 then c.toNat - 97 + 26
  else if 48 ≤ c ∧ c ≤ 57 then c.toNat - 48 + 52
  else if c = 43 then 62
  else if c = 47 then 63
  else -1

/-- One round of `b64_encode`, on the bytes from `in[i]` on. -/
def b64Group (s : List UInt8) : List UInt8 :=
  let rem := s.length
  let v := (s.getD 0 0).toNat <<< 16
  let v := if 2 ≤ rem then v ||| (s.getD 1 0).toNat <<< 8 else v
  let v := if 3 ≤ rem then v ||| (s.getD 2 0).toNat else v
  [b64Char (v >>> 18 &&& 0x3F), b64Char (v >>> 12 &&& 0x3F),
    if 2 ≤ rem then b64Char (v >>> 6 &&& 0x3F) else 61,
    if 3 ≤ rem then b64Char (v &&& 0x3F) else 61]

/-- The loop of `b64_encode`. -/
def b64EncodeLoop (s : List UInt8) : List UInt8 :=
  if s = [] then [] else b64Group s ++ b64EncodeLoop (s.drop 3)
termination_by s.length
decreasing_by
  have pos := List.length_pos_iff.mpr ‹s ≠ []›
  rw [List.length_drop]
  omega

/-- `b64_encode`. -/
def b64Encode (s : List UInt8) : List UInt8 := b64EncodeLoop s ++ crlf

/-- The bytes of four indices, fewer when one of the last two is negative. -/
def b64Bytes (a b c d : Int) : List UInt8 :=
  UInt8.ofNat (a.toNat <<< 2 ||| b.toNat >>> 4) ::
    ((if 0 ≤ c then [UInt8.ofNat ((b.toNat &&& 0xF) <<< 4 ||| c.toNat >>> 2)] else []) ++
      if 0 ≤ d then [UInt8.ofNat ((c % 4).toNat <<< 6 ||| d.toNat)] else [])

/-- The loop of `b64_decode`, on a string with a NUL at `in[n]`. -/
def b64DecodeLoop (input : List UInt8) (n i : Nat) : List UInt8 :=
  if i + 3 < n + 4 ∧ input.getD i 0 ≠ 0 then
    let a := b64Index (input.getD i 0)
    let b := if i + 1 < n then b64Index (input.getD (i + 1) 0) else -1
    let c := if i + 2 < n then
      if input.getD (i + 2) 0 = 61 then -2 else b64Index (input.getD (i + 2) 0) else -2
    let d := if i + 3 < n then
      if input.getD (i + 3) 0 = 61 then -2 else b64Index (input.getD (i + 3) 0) else -2
    if a < 0 ∨ b < 0 then []
    else b64Bytes a b c d ++ b64DecodeLoop input n (i + 4)
  else []
termination_by n + 1 - i

/-- `b64_decode`. -/
def b64Decode (input : List UInt8) : List UInt8 := b64DecodeLoop input input.length 0 ++ crlf

variable {a b c : UInt8} {s pre : List UInt8}

theorem b64Index_char {v : Nat} (lt : v < 64) : b64Index (b64Char v) = v := by
  revert v
  decide +kernel

theorem b64Char_ne {v : Nat} (lt : v < 64) : b64Char v ≠ 0 ∧ b64Char v ≠ 61 := by
  revert v
  decide +kernel

/-- The word that `b64_encode` puts together. -/
theorem b64Word {a b c : Nat} (b_lt : b < 256) (c_lt : c < 256) :
    a <<< 16 ||| b <<< 8 ||| c = a * 65536 + b * 256 + c := by
  have middle : b <<< 8 < 2 ^ 16 := by
    rw [Nat.shiftLeft_eq]
    omega
  have high : a <<< 16 ||| b <<< 8 = (a * 256 + b) <<< 8 := by
    rw [Sextets.or_eq_add middle, Nat.shiftLeft_eq, Nat.shiftLeft_eq]
    omega
  have low : c < 2 ^ 8 := c_lt
  rw [high, Sextets.or_eq_add low]
  omega

/-- The sextets that are cut from it. -/
theorem b64Word_sextets {a b c v : Nat} (a_lt : a < 256) (b_lt : b < 256) (c_lt : c < 256)
    (word : v = a * 65536 + b * 256 + c) :
    v >>> 18 &&& 0x3F = Sextets.first a ∧ v >>> 12 &&& 0x3F = Sextets.second a b ∧
      v >>> 6 &&& 0x3F = Sextets.third b c ∧ v &&& 0x3F = Sextets.fourth c := by
  have mask (x : Nat) : x &&& 0x3F = x % 64 := Nat.and_two_pow_sub_one_eq_mod x 6
  simp only [mask, Nat.shiftRight_eq_div_pow, word]
  unfold Sextets.first Sextets.second Sextets.third Sextets.fourth
  omega

theorem b64Group_cons (a b c : UInt8) (s : List UInt8) :
    b64Group (a :: b :: c :: s) =
      [b64Char (Sextets.first a.toNat), b64Char (Sextets.second a.toNat b.toNat),
        b64Char (Sextets.third b.toNat c.toNat), b64Char (Sextets.fourth c.toNat)] := by
  obtain ⟨first, second, third, fourth⟩ := b64Word_sextets a.toNat_lt b.toNat_lt c.toNat_lt
    (b64Word (a := a.toNat) b.toNat_lt c.toNat_lt)
  simp [b64Group, first, second, third, fourth]

theorem b64Group_two (a b : UInt8) :
    b64Group [a, b] =
      [b64Char (Sextets.first a.toNat), b64Char (Sextets.second a.toNat b.toNat),
        b64Char (Sextets.third b.toNat 0), 61] := by
  obtain ⟨first, second, third, -⟩ := b64Word_sextets a.toNat_lt b.toNat_lt (by decide)
    (b64Word (a := a.toNat) b.toNat_lt (by decide : 0 < 256))
  rw [Nat.or_zero] at first second third
  simp [b64Group, first, second, third]

theorem b64Group_one (a : UInt8) :
    b64Group [a] =
      [b64Char (Sextets.first a.toNat), b64Char (Sextets.second a.toNat 0), 61, 61] := by
  obtain ⟨first, second, -, -⟩ := b64Word_sextets a.toNat_lt (by decide) (by decide)
    (b64Word (a := a.toNat) (by decide : 0 < 256) (by decide : 0 < 256))
  rw [Nat.zero_shiftLeft, Nat.or_zero, Nat.or_zero] at first second
  simp [b64Group, first, second]

theorem low_nibble (x : Nat) : x &&& 0xF = x % 16 := Nat.and_two_pow_sub_one_eq_mod x 4

/-- A full group comes out as its three bytes. -/
theorem b64Bytes_three (a b c : UInt8) :
    b64Bytes (Sextets.first a.toNat) (Sextets.second a.toNat b.toNat)
      (Sextets.third b.toNat c.toNat) (Sextets.fourth c.toNat) = [a, b, c] := by
  have masked (x : Nat) : ((x : Int) % 4).toNat = x % 4 := by omega
  simp only [b64Bytes, Int.toNat_natCast, low_nibble, masked, Int.natCast_nonneg, if_true,
    Sextets.join_first b.toNat_lt, Sextets.join_second b.toNat_lt c.toNat_lt,
    Sextets.join_third c.toNat_lt, UInt8.ofNat_toNat, List.singleton_append]

theorem b64Bytes_two (a b : UInt8) :
    b64Bytes (Sextets.first a.toNat) (Sextets.second a.toNat b.toNat)
      (Sextets.third b.toNat 0) (-2) = [a, b] := by
  have none : ¬ (0 : Int) ≤ -2 := by decide
  simp only [b64Bytes, Int.toNat_natCast, low_nibble, Int.natCast_nonneg, if_true, if_neg none,
    Sextets.join_first b.toNat_lt, Sextets.join_second b.toNat_lt (by decide : 0 < 256),
    UInt8.ofNat_toNat, List.append_nil]

theorem b64Bytes_one (a : UInt8) :
    b64Bytes (Sextets.first a.toNat) (Sextets.second a.toNat 0) (-2) (-2) = [a] := by
  have none : ¬ (0 : Int) ≤ -2 := by decide
  simp only [b64Bytes, Int.toNat_natCast, if_neg none,
    Sextets.join_first (by decide : 0 < 256), UInt8.ofNat_toNat, List.append_nil]

/-- One round of `b64_decode` on four characters. -/
theorem b64DecodeLoop_group {x y z w : UInt8} {a b : Nat} {c d : Int} {rest : List UInt8}
    (nonzero : x ≠ 0)
    (first : b64Index x = a) (second : b64Index y = b)
    (third : (if z = 61 then -2 else b64Index z) = c)
    (fourth : (if w = 61 then -2 else b64Index w) = d) :
    b64DecodeLoop (pre ++ ([x, y, z, w] ++ rest)) (pre ++ ([x, y, z, w] ++ rest)).length
        pre.length =
      b64Bytes a b c d ++ b64DecodeLoop ((pre ++ [x, y, z, w]) ++ rest)
        ((pre ++ [x, y, z, w]) ++ rest).length (pre ++ [x, y, z, w]).length := by
  have size : (pre ++ ([x, y, z, w] ++ rest)).length = pre.length + 4 + rest.length := by
    simp
    omega
  have behind : (pre ++ [x, y, z, w]).length = pre.length + 4 := by simp
  rw [List.append_assoc, size, behind]
  have at_ (k : Nat) : (pre ++ ([x, y, z, w] ++ rest)).getD (pre.length + k) 0 =
      ([x, y, z, w] ++ rest).getD k 0 := by
    rw [List.getD_append_right _ _ _ _ (Nat.le_add_right _ k), Nat.add_sub_cancel_left]
  have here : (pre ++ ([x, y, z, w] ++ rest)).getD pre.length 0 = x := at_ 0
  have next₁ : (pre ++ ([x, y, z, w] ++ rest)).getD (pre.length + 1) 0 = y := at_ 1
  have next₂ : (pre ++ ([x, y, z, w] ++ rest)).getD (pre.length + 2) 0 = z := at_ 2
  have next₃ : (pre ++ ([x, y, z, w] ++ rest)).getD (pre.length + 3) 0 = w := at_ 3
  have goes : pre.length + 3 < pre.length + 4 + rest.length + 4 ∧ x ≠ 0 := ⟨by omega, nonzero⟩
  have inside₁ : pre.length + 1 < pre.length + 4 + rest.length := by omega
  have inside₂ : pre.length + 2 < pre.length + 4 + rest.length := by omega
  have inside₃ : pre.length + 3 < pre.length + 4 + rest.length := by omega
  have valid : ¬ ((a : Int) < 0 ∨ (b : Int) < 0) := by omega
  rw [b64DecodeLoop]
  simp only [here, next₁, next₂, next₃, if_pos goes, if_pos inside₁, if_pos inside₂,
    if_pos inside₃, first, second, third, fourth, if_neg valid]

theorem b64DecodeLoop_end (s : List UInt8) : b64DecodeLoop s s.length s.length = [] := by
  rw [b64DecodeLoop, if_neg]
  simp

/-- The index of a character of the table, which is not taken for padding. -/
theorem b64Index_or_pad {v : Nat} (lt : v < 64) :
    (if b64Char v = 61 then -2 else b64Index (b64Char v)) = (v : Int) := by
  rw [if_neg (b64Char_ne lt).2, b64Index_char lt]

theorem b64Index_pad : (if (61 : UInt8) = 61 then (-2 : Int) else b64Index 61) = -2 := if_pos rfl

theorem b64DecodeLoop_encode (pre s : List UInt8) :
    b64DecodeLoop (pre ++ b64EncodeLoop s) (pre ++ b64EncodeLoop s).length pre.length = s := by
  have ends : b64EncodeLoop [] = [] := by rw [b64EncodeLoop, if_pos rfl]
  induction size : s.length using Nat.strong_induction_on generalizing pre s with
  | _ n ih =>
      match s with
      | [] =>
          rw [ends, List.append_nil]
          exact b64DecodeLoop_end pre
      | [a] =>
          have first := Sextets.first_lt a.toNat_lt
          have second := Sextets.second_lt (a := a.toNat) (by decide : 0 < 256)
          rw [b64EncodeLoop, if_neg (by simp), b64Group_one, List.drop_succ_cons, List.drop_nil,
            ends, b64DecodeLoop_group (b64Char_ne first).1 (b64Index_char first)
              (b64Index_char second) b64Index_pad b64Index_pad,
            b64Bytes_one, List.append_nil, b64DecodeLoop_end, List.append_nil]
      | [a, b] =>
          have first := Sextets.first_lt a.toNat_lt
          have second := Sextets.second_lt (a := a.toNat) b.toNat_lt
          have third := Sextets.third_lt (b := b.toNat) (by decide : 0 < 256)
          rw [b64EncodeLoop, if_neg (by simp), b64Group_two, List.drop_succ_cons,
            List.drop_succ_cons, List.drop_nil, ends,
            b64DecodeLoop_group (b64Char_ne first).1 (b64Index_char first)
              (b64Index_char second) (b64Index_or_pad third) b64Index_pad,
            b64Bytes_two, List.append_nil, b64DecodeLoop_end, List.append_nil]
      | a :: b :: c :: s =>
          have first := Sextets.first_lt a.toNat_lt
          have second := Sextets.second_lt (a := a.toNat) b.toNat_lt
          have third := Sextets.third_lt (b := b.toNat) c.toNat_lt
          have fourth := Sextets.fourth_lt c.toNat
          have smaller : s.length < n := by
            rw [← size]
            simp only [List.length_cons]
            omega
          rw [b64EncodeLoop, if_neg (by simp), b64Group_cons, List.drop_succ_cons,
            List.drop_succ_cons, List.drop_succ_cons, List.drop_zero,
            b64DecodeLoop_group (b64Char_ne first).1 (b64Index_char first)
              (b64Index_char second) (b64Index_or_pad third) (b64Index_or_pad fourth),
            b64Bytes_three, ih s.length smaller _ s rfl]
          rfl

/-- What was encoded is decoded to the same bytes. -/
theorem base64_round_trip (s : List UInt8) :
    b64Encode s = b64EncodeLoop s ++ crlf ∧ b64Decode (b64EncodeLoop s) = s ++ crlf := by
  have decoded := b64DecodeLoop_encode [] s
  rw [List.nil_append, List.length_nil] at decoded
  exact ⟨rfl, by rw [b64Decode, decoded]⟩

end Base64

section Uuencode

/-- `b ? b + 0x20 : 0x60`. -/
def uuChar (b : Nat) : UInt8 := UInt8.ofNat (if b ≠ 0 then b + 0x20 else 0x60)

/-- The loop of `cmd_uue`, on the bytes of the argument from `s[i]` to `s[n - 1]`. -/
def uueLoop : List UInt8 → List UInt8
  | [] => []
  | s₀ :: rest =>
      let c1 := s₀.toNat
      let c2 := (rest.getD 0 0).toNat
      let c3 := (rest.getD 1 0).toNat
      let b1 := c1 >>> 2
      let b2 := (c1 &&& 3) <<< 4 ||| c2 >>> 4
      let b3 := (c2 &&& 0xF) <<< 2 ||| c3 >>> 6
      let b4 := c3 &&& 0x3F
      [uuChar b1, uuChar b2, uuChar b3, uuChar b4] ++ uueLoop (rest.drop 2)
termination_by s => s.length

/-- `cmd_uue`, without the line end. -/
def uueLine (s : List UInt8) : List UInt8 :=
  let n := if 45 < s.length then 45 else s.length
  UInt8.ofNat (n + 0x20) :: uueLoop (s.take n)

/-- `cmd_uue`. -/
def cmdUue (s : List UInt8) : List UInt8 := uueLine s ++ crlf

/-- `((u8)c - 0x20) & 0x3F`. -/
def uuSextet (c : UInt8) : Nat := (((c.toNat : Int) - 0x20) % 64).toNat

/-- The loop of `cmd_uud` from `s` on; what is behind the NUL of the argument may be read. -/
def uudLoop (mem : Nat → UInt8) (n written s : Nat) : List UInt8 :=
  if written < n ∧ mem s ≠ 0 then
    let b1 := uuSextet (mem s)
    let b2 := if mem (s + 1) ≠ 0 then uuSextet (mem (s + 1)) else 0
    let b3 := if mem (s + 2) ≠ 0 then uuSextet (mem (s + 2)) else 0
    let b4 := if mem (s + 3) ≠ 0 then uuSextet (mem (s + 3)) else 0
    [UInt8.ofNat (b1 <<< 2 ||| b2 >>> 4)] ++
      (if written + 1 < n then [UInt8.ofNat (b2 <<< 4 ||| b3 >>> 2)] else []) ++
      (if written + 2 < n then [UInt8.ofNat (b3 <<< 6 ||| b4)] else []) ++
      uudLoop mem n (written + 3) (s + 4)
  else []
termination_by n - written

/-- `cmd_uud` on the argument at `s`. -/
def cmdUud (mem : Nat → UInt8) (s : Nat) : List UInt8 :=
  if mem s = 0 then []
  else
    let n := ((mem s).toNat : Int) - 0x20
    if n < 0 ∨ 45 < n then puts (ascii "?bad length\r\n")
    else uudLoop mem n.toNat 0 (s + 1) ++ crlf

variable {mem : Nat → UInt8} {p n written : Nat} {s rest : List UInt8}

theorem uuSextet_char {v : Nat} (lt : v < 64) : uuSextet (uuChar v) = v := by
  revert v
  decide +kernel

theorem uuChar_ne_zero {v : Nat} (lt : v < 64) : uuChar v ≠ 0 := by
  revert v
  decide +kernel

theorem uueLoop_cons (a : UInt8) (rest : List UInt8) :
    uueLoop (a :: rest) =
      [uuChar (Sextets.first a.toNat), uuChar (Sextets.second a.toNat (rest.getD 0 0).toNat),
        uuChar (Sextets.third (rest.getD 0 0).toNat (rest.getD 1 0).toNat),
        uuChar (Sextets.fourth (rest.getD 1 0).toNat)] ++ uueLoop (rest.drop 2) := by
  have first : a.toNat >>> 2 = Sextets.first a.toNat := Nat.shiftRight_eq_div_pow _ 2
  have second : (a.toNat &&& 3) <<< 4 ||| (rest.getD 0 0).toNat >>> 4 =
      Sextets.second a.toNat (rest.getD 0 0).toNat := by
    have lt := (rest.getD 0 0).toNat_lt
    have small : (rest.getD 0 0).toNat >>> 4 < 2 ^ 4 := by
      rw [Nat.shiftRight_eq_div_pow]
      omega
    rw [Sextets.or_eq_add small, Nat.shiftRight_eq_div_pow]
    rw [show a.toNat &&& 3 = a.toNat % 4 from Nat.and_two_pow_sub_one_eq_mod _ 2]
    rfl
  have third : ((rest.getD 0 0).toNat &&& 0xF) <<< 2 ||| (rest.getD 1 0).toNat >>> 6 =
      Sextets.third (rest.getD 0 0).toNat (rest.getD 1 0).toNat := by
    have lt := (rest.getD 1 0).toNat_lt
    have small : (rest.getD 1 0).toNat >>> 6 < 2 ^ 2 := by
      rw [Nat.shiftRight_eq_div_pow]
      omega
    rw [Sextets.or_eq_add small, Nat.shiftRight_eq_div_pow, low_nibble]
    rfl
  have fourth : (rest.getD 1 0).toNat &&& 0x3F = Sextets.fourth (rest.getD 1 0).toNat :=
    Nat.and_two_pow_sub_one_eq_mod _ 6
  rw [uueLoop]
  simp only [first, second, third, fourth]

theorem noNul_uueLoop (s : List UInt8) : 0 ∉ uueLoop s := by
  induction size : s.length using Nat.strong_induction_on generalizing s with
  | _ left ih =>
      cases s with
      | nil => simp [uueLoop]
      | cons a rest =>
          have less : (rest.drop 2).length < left := by
            rw [← size, List.length_drop, List.length_cons]
            omega
          have first := uuChar_ne_zero (Sextets.first_lt a.toNat_lt)
          have second := uuChar_ne_zero
            (Sextets.second_lt (a := a.toNat) (rest.getD 0 0).toNat_lt)
          have third := uuChar_ne_zero
            (Sextets.third_lt (b := (rest.getD 0 0).toNat) (rest.getD 1 0).toNat_lt)
          have fourth := uuChar_ne_zero (Sextets.fourth_lt (rest.getD 1 0).toNat)
          rw [uueLoop_cons, List.mem_append, not_or]
          refine ⟨?_, ih _ less _ rfl⟩
          simp only [List.mem_cons, List.not_mem_nil, or_false, not_or]
          exact ⟨first.symm, second.symm, third.symm, fourth.symm⟩

/-- An encoded line is a string. -/
theorem noNul_uueLine (s : List UInt8) : 0 ∉ uueLine s := by
  have head : ∀ n ≤ 45, (0 : UInt8) ≠ UInt8.ofNat (n + 0x20) := by decide
  rw [uueLine, List.mem_cons, not_or]
  refine ⟨head _ ?_, noNul_uueLoop _⟩
  split <;> omega

/-- The characters of a group, and the rest of the line behind them. -/
theorem Spells.group {a b c d : UInt8} {line : List UInt8}
    (spells : Spells mem p ([a, b, c, d] ++ line)) :
    mem p = a ∧ mem (p + 1) = b ∧ mem (p + 2) = c ∧ mem (p + 3) = d ∧
      Spells mem (p + 4) line := by
  obtain ⟨first, -, second, -, third, -, fourth, -, rest⟩ := spells
  exact ⟨first, second, third, fourth, rest⟩

/-- The bytes that are put together from the sextets of a group. -/
theorem uudBytes (a b c : UInt8) :
    UInt8.ofNat (Sextets.first a.toNat <<< 2 ||| Sextets.second a.toNat b.toNat >>> 4) = a ∧
      UInt8.ofNat (Sextets.second a.toNat b.toNat <<< 4 |||
        Sextets.third b.toNat c.toNat >>> 2) = b ∧
      UInt8.ofNat (Sextets.third b.toNat c.toNat <<< 6 ||| Sextets.fourth c.toNat) = c := by
  have small : Sextets.third b.toNat c.toNat >>> 2 < 2 ^ 4 := by
    have lt := Sextets.third_lt (b := b.toNat) c.toNat_lt
    rw [Nat.shiftRight_eq_div_pow]
    omega
  have last : Sextets.fourth c.toNat < 2 ^ 6 := Sextets.fourth_lt _
  refine ⟨?_, ?_, ?_⟩
  · rw [Sextets.join_first b.toNat_lt, UInt8.ofNat_toNat]
  · rw [Sextets.byte_of_masked small (by decide)]
    exact (congrArg UInt8.ofNat (Sextets.join_second b.toNat_lt c.toNat_lt)).trans
      UInt8.ofNat_toNat
  · rw [Sextets.byte_of_masked last (by decide)]
    exact (congrArg UInt8.ofNat (Sextets.join_third c.toNat_lt)).trans UInt8.ofNat_toNat

/-- The decoder counts the bytes it has written, the encoder those it has read. -/
theorem uudLoop_uueLoop (spells : Spells mem p (uueLoop s)) (count : n = written + s.length) :
    uudLoop mem n written p = s := by
  induction size : s.length using Nat.strong_induction_on generalizing s p written with
  | _ left ih =>
      match s with
      | [] =>
          rw [uudLoop, if_neg]
          rw [count]
          simp
      | a :: rest =>
          rw [uueLoop_cons] at spells
          obtain ⟨at₀, at₁, at₂, at₃, behind⟩ := spells.group
          have first := Sextets.first_lt a.toNat_lt
          have second := Sextets.second_lt (a := a.toNat) (rest.getD 0 0).toNat_lt
          have third := Sextets.third_lt (b := (rest.getD 0 0).toNat) (rest.getD 1 0).toNat_lt
          have fourth := Sextets.fourth_lt (rest.getD 1 0).toNat
          have goes : written < n ∧ uuChar (Sextets.first a.toNat) ≠ 0 := by
            refine ⟨?_, uuChar_ne_zero first⟩
            rw [count, List.length_cons]
            omega
          rw [uudLoop]
          simp only [at₀, at₁, at₂, at₃, if_pos goes, if_pos (uuChar_ne_zero second),
            if_pos (uuChar_ne_zero third), if_pos (uuChar_ne_zero fourth),
            uuSextet_char first, uuSextet_char second, uuSextet_char third, uuSextet_char fourth]
          obtain ⟨byte₁, byte₂, byte₃⟩ := uudBytes a (rest.getD 0 0) (rest.getD 1 0)
          rw [byte₁, byte₂, byte₃]
          have later : uudLoop mem n (written + 3) (p + 4) = rest.drop 2 := by
            by_cases more : 2 ≤ rest.length
            · have less : (rest.drop 2).length < left := by
                rw [← size, List.length_drop, List.length_cons]
                omega
              apply ih _ less behind _ rfl
              rw [count, List.length_drop, List.length_cons]
              omega
            · have ends : ¬ (written + 3 < n ∧ mem (p + 4) ≠ 0) := by
                rw [count, List.length_cons]
                omega
              rw [uudLoop, if_neg ends, List.drop_eq_nil_of_le (by omega)]
          rw [later]
          rw [List.length_cons] at count
          match rest with
          | [] => simp [count]
          | [b] => simp [count]
          | b :: c :: rest =>
              have two : written + 1 < n ∧ written + 2 < n := by
                rw [count, List.length_cons, List.length_cons]
                omega
              simp [two.1, two.2]

/-- What was encoded is decoded to the same bytes, as far as they fit on a line. -/
theorem uuencode_round_trip (spells : Spells mem p (uueLine s)) :
    cmdUue s = uueLine s ++ crlf ∧ cmdUud mem p = s.take 45 ++ crlf := by
  refine ⟨rfl, ?_⟩
  have length : (if 45 < s.length then 45 else s.length) = (s.take 45).length := by
    rw [List.length_take]
    split <;> omega
  have le : (s.take 45).length ≤ 45 := List.length_take_le 45 s
  have part : s.take (s.take 45).length = s.take 45 := by
    rw [List.length_take]
    by_cases long : 45 ≤ s.length
    · rw [Nat.min_eq_left long]
    · rw [Nat.min_eq_right (by omega), List.take_length, List.take_of_length_le (by omega)]
  rw [uueLine, length, part] at spells
  obtain ⟨here, nonzero, behind⟩ := spells
  have value : (mem p).toNat = (s.take 45).length + 0x20 := by
    rw [here, UInt8.toNat_ofNat', Nat.mod_eq_of_lt (by omega)]
  have count : ((mem p).toNat : Int) - 0x20 = (s.take 45).length := by omega
  rw [cmdUud, if_neg (here ▸ nonzero)]
  simp only [count]
  rw [if_neg (by omega), Int.toNat_natCast, uudLoop_uueLoop behind (Nat.zero_add _).symm]

theorem cat_round_trip :
    cmdUue [67, 97, 116, 115] = uueLine [67, 97, 116, 115] ++ crlf ∧
      cmdUud (fun i => (uueLine [67, 97, 116, 115]).getD i 0) 0 =
        List.take 45 [67, 97, 116, 115] ++ crlf :=
  uuencode_round_trip (spells_getD (noNul_uueLine _))

end Uuencode

end Ncd15.Xcpm
