import Ncd15.Xcpm.LineEditor

/-!
# What is printed on the console

`puts_`, `puthex` and `putdec` as the characters they send, one behind the other.
-/

namespace Ncd15.Xcpm

section Model

/-- `puts_`: a line feed is sent with a carriage return in front. -/
def puts (s : List UInt8) : List UInt8 := s.flatMap fun c => if c = 10 then [13, c] else [c]

/-- `puts_("\r\n")`. -/
def crlf : List UInt8 := puts [13, 10]

/-- `hex[v]`. -/
def hexDigit (v : Nat) : UInt8 := (ascii "0123456789ABCDEF").getD v 0

/-- `while (t) { digits++; t >>= 4; }`. -/
def countDigits (t digits : Nat) : Nat :=
  if t = 0 then digits else countDigits (t >>> 4) (digits + 1)
termination_by t
decreasing_by rw [Nat.shiftRight_eq_div_pow]; omega

/-- The number of digits of `puthex`: as many as are needed when 0 are asked for, and at least
one and at most eight. -/
def hexWidth (v : Nat) (digits : Int) : Nat :=
  let digits := if digits = 0 then (countDigits (v >>> 4) 1 : Int) else digits
  if digits < 1 then 1 else if 8 < digits then 8 else digits.toNat

/-- `for (i = digits - 1; i >= 0; i--) { buf[i] = hex[v & 0xF]; v >>= 4; }`. -/
def hexDigits : Nat → Nat → List UInt8
  | 0, _ => []
  | digits + 1, v => hexDigits digits (v >>> 4) ++ [hexDigit (v &&& 0xF)]

/-- `puthex`. -/
def puthex (v : Nat) (digits : Int) : List UInt8 := puts (hexDigits (hexWidth v digits) v)

/-- `while (v && i >= 0) { buf[i--] = '0' + (char)(v % 10); v /= 10; }`, with the places that are
left in `buf`. -/
def decDigits : Nat → Nat → List UInt8
  | 0, _ => []
  | places + 1, v => if v = 0 then [] else decDigits places (v / 10) ++ [48 + UInt8.ofNat (v % 10)]

/-- `putdec`; `buf` holds 11 characters and a NUL. -/
def putdec (v : Nat) : List UInt8 := puts (if v = 0 then [48] else decDigits 11 v)

end Model

section Digits

variable {s : List UInt8} {v : Nat}

theorem puts_of_noFeed (none : 10 ∉ s) : puts s = s := by
  induction s with
  | nil => rfl
  | cons c s ih =>
      have plain : c ≠ 10 := fun feed => none (by simp [feed])
      have rest : puts s = s := ih fun member => none (List.mem_cons_of_mem c member)
      rw [puts, List.flatMap_cons, if_neg plain, List.singleton_append]
      exact congrArg (c :: ·) rest

theorem hexDigit_ne_feed (lt : v < 16) : hexDigit v ≠ 10 := by
  revert v
  decide

theorem noFeed_hexDigits (digits v : Nat) : 10 ∉ hexDigits digits v := by
  induction digits generalizing v with
  | zero => simp [hexDigits]
  | succ digits ih =>
      have small : v &&& 0xF < 16 := Nat.lt_succ_of_le Nat.and_le_right
      rw [hexDigits, List.mem_append, List.mem_singleton, not_or]
      exact ⟨ih _, (hexDigit_ne_feed small).symm⟩

theorem puthex_eq (v : Nat) (digits : Int) :
    puthex v digits = hexDigits (hexWidth v digits) v :=
  puts_of_noFeed (noFeed_hexDigits _ _)

@[simp] theorem length_hexDigits (digits v : Nat) : (hexDigits digits v).length = digits := by
  induction digits generalizing v with
  | zero => rfl
  | succ digits ih => rw [hexDigits, List.length_append, ih, List.length_singleton]

theorem noFeed_decDigits (places v : Nat) : 10 ∉ decDigits places v := by
  induction places generalizing v with
  | zero => simp [decDigits]
  | succ places ih =>
      have digit : ∀ d < 10, (10 : UInt8) ≠ 48 + UInt8.ofNat d := by decide
      rw [decDigits]
      split
      · simp
      · rw [List.mem_append, List.mem_singleton, not_or]
        exact ⟨ih _, digit _ (Nat.mod_lt v (by decide))⟩

theorem putdec_eq (v : Nat) : putdec v = if v = 0 then [48] else decDigits 11 v := by
  apply puts_of_noFeed
  split
  · decide
  · exact noFeed_decDigits 11 v

end Digits

end Ncd15.Xcpm
