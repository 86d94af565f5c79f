import Mathlib.Data.List.Basic

/-!
# Python's `int` of a text

What `int(text, base)` reads: an optional sign and digits with single underscores between
them, with blanks around it and `0x` in front of hexadecimal digits.  Digits and blanks are
those of ASCII.
-/

namespace Ncd15.Library

/-- The value of a digit. -/
def digitIn (base : Nat) (c : Char) : Option Nat :=
  let value :=
    if c.isDigit then c.toNat - 48
    else if 'a' ≤ c ∧ c ≤ 'z' then c.toNat - 87
    else if 'A' ≤ c ∧ c ≤ 'Z' then c.toNat - 55
    else base
  if value < base then some value else none

/-- The digits behind a value, each with an underscore in front of it or not. -/
def readDigits (base : Nat) : Nat → List Char → Option Nat
  | value, [] => some value
  | value, '_' :: c :: rest =>
      (digitIn base c).bind fun d => readDigits base (base * value + d) rest
  | value, c :: rest => (digitIn base c).bind fun d => readDigits base (base * value + d) rest

/-- A number without sign. -/
def readNat (base : Nat) : List Char → Option Nat
  | [] => none
  | c :: rest =>
      if base = 16 ∧ c = '0' ∧ (rest.head? = some 'x' ∨ rest.head? = some 'X') then
        if rest.tail = [] then none else readDigits base 0 rest.tail
      else (digitIn base c).bind fun d => readDigits base d rest

def isBlank (c : Char) : Bool :=
  (9 ≤ c.toNat && c.toNat ≤ 13) || (28 ≤ c.toNat && c.toNat ≤ 32)

def stripBlanks (text : List Char) : List Char :=
  ((text.dropWhile isBlank).reverse.dropWhile isBlank).reverse

/-- `int(text, base)`; `none` is `ValueError`. -/
def pyInt (base : Nat) (text : List Char) : Option Int :=
  match stripBlanks text with
  | '-' :: rest => (readNat base rest).map fun n => -(n : Int)
  | '+' :: rest => (readNat base rest).map fun n => (n : Int)
  | rest => (readNat base rest).map fun n => (n : Int)

section Decimal

variable {text : List Char} {c : Char}

theorem not_isBlank_of_isDigit (digit : c.isDigit = true) : isBlank c = false := by
  simp only [Char.isDigit, Bool.and_eq_true, decide_eq_true_eq, UInt32.le_iff_toNat_le] at digit
  have low : 48 ≤ c.toNat := digit.1
  simp only [isBlank, Bool.or_eq_false_iff, Bool.and_eq_false_iff, decide_eq_false_iff_not]
  omega

theorem digitIn_of_isDigit (digit : c.isDigit = true) : digitIn 10 c = some (c.toNat - 48) := by
  have range := digit
  simp only [Char.isDigit, Bool.and_eq_true, decide_eq_true_eq, UInt32.le_iff_toNat_le] at range
  have high : c.toNat ≤ 57 := range.2
  rw [digitIn, if_pos digit]
  exact if_pos (by omega)

theorem readDigits_of_isDigit (value : Nat) (digits : ∀ c ∈ text, c.isDigit = true) :
    readDigits 10 value text = some (Nat.ofDigitChars 10 text value) := by
  induction text generalizing value with
  | nil => rfl
  | cons c rest ih =>
      have digit := digits c List.mem_cons_self
      have under : c ≠ '_' := by
        rintro rfl
        exact absurd digit (by decide)
      rw [readDigits, digitIn_of_isDigit digit, Option.bind_some, ih _ fun c mem =>
        digits c (List.mem_cons_of_mem _ mem), Nat.ofDigitChars_cons]
      · rfl
      · exact fun _ _ same => absurd same under

theorem stripBlanks_of_isDigit (digits : ∀ c ∈ text, c.isDigit = true) :
    stripBlanks text = text := by
  have keep (text : List Char) (digits : ∀ c ∈ text, c.isDigit = true) :
      text.dropWhile isBlank = text := by
    cases text with
    | nil => rfl
    | cons c rest =>
        rw [List.dropWhile_cons_of_neg]
        simp [not_isBlank_of_isDigit (digits c List.mem_cons_self)]
  rw [stripBlanks, keep text digits, keep _ fun c mem => digits c (List.mem_reverse.mp mem),
    List.reverse_reverse]

theorem pyInt_of_isDigit (some_ : text ≠ []) (digits : ∀ c ∈ text, c.isDigit = true) :
    pyInt 10 text = some (Nat.ofDigitChars 10 text 0 : Int) := by
  cases text with
  | nil => exact absurd rfl some_
  | cons c rest =>
      have digit := digits c List.mem_cons_self
      have read : readNat 10 (c :: rest) = some (Nat.ofDigitChars 10 (c :: rest) 0) := by
        rw [readNat, if_neg (by simp), digitIn_of_isDigit digit, Option.bind_some,
          readDigits_of_isDigit _ fun c mem => digits c (List.mem_cons_of_mem _ mem),
          Nat.ofDigitChars_cons]
        simp
      rw [pyInt, stripBlanks_of_isDigit digits]
      split
      · rename_i same
        rw [(List.cons.inj same).1] at digit
        exact absurd digit (by decide)
      · rename_i same
        rw [(List.cons.inj same).1] at digit
        exact absurd digit (by decide)
      · rw [read]
        rfl

/-- `int(str(n))`. -/
theorem pyInt_toDigits (n : Nat) : pyInt 10 (Nat.toDigits 10 n) = some (n : Int) := by
  have digits (c : Char) (mem : c ∈ Nat.toDigits 10 n) : c.isDigit :=
    Nat.isDigit_of_mem_toDigits (by decide) (Nat.le_refl 10) mem
  rw [pyInt_of_isDigit Nat.toDigits_ne_nil digits, Nat.ofDigitChars_ten_toDigits]

end Decimal

end Ncd15.Library
