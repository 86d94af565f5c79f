import Mathlib.Algebra.GroupWithZero.Nat
import Mathlib.Logic.Function.Basic
import Mathlib.Data.List.GetD

/-!
# Flat memories

A memory with an address space of 32 bits, whose addresses wrap, and bytes that are stored in it
one behind the other.
-/

namespace Ncd15.Library

/-- A byte at every address. -/
abbrev Flat := UInt32 → UInt8

namespace Flat

/-- One byte stored. -/
def put (m : Flat) (a : UInt32) (b : UInt8) : Flat := Function.update m a b

/-- Bytes stored one behind the other. -/
def putAll (m : Flat) (a : UInt32) : List UInt8 → Flat
  | [] => m
  | b :: bs => putAll (m.put a b) (a + 1) bs

variable {m : Flat} {a x : UInt32} {b : UInt8} {bs : List UInt8}

@[simp] theorem put_self (m : Flat) (a : UInt32) (b : UInt8) : m.put a b a = b := by
  rw [put, Function.update_self]

theorem put_of_ne (m : Flat) (b : UInt8) (other : x ≠ a) : m.put a b x = m x := by
  rw [put, Function.update_of_ne other]

@[simp] theorem putAll_nil (m : Flat) (a : UInt32) : m.putAll a [] = m := rfl

theorem putAll_cons : m.putAll a (b :: bs) = (m.put a b).putAll (a + 1) bs := rfl

theorem add_ofNat_succ (a : UInt32) (k : Nat) :
    a + UInt32.ofNat (k + 1) = a + 1 + UInt32.ofNat k := by
  rw [UInt32.ofNat_add, UInt32.add_comm (UInt32.ofNat k), ← UInt32.add_assoc]
  rfl

theorem putAll_append (m : Flat) (a : UInt32) (first second : List UInt8) :
    m.putAll a (first ++ second) =
      (m.putAll a first).putAll (a + UInt32.ofNat first.length) second := by
  induction first generalizing m a with
  | nil => simp
  | cons b first ih =>
      rw [List.cons_append, putAll_cons, putAll_cons, ih, List.length_cons, add_ofNat_succ]

/-- The distance to an address is one more than from behind its start. -/
theorem toNat_sub_succ (other : x ≠ a) : (x - a).toNat = (x - (a + 1)).toNat + 1 := by
  have nonzero : x - a ≠ 0 := fun zero => other (by grind)
  have one : (1 : UInt32) ≤ x - a := by
    rw [UInt32.le_iff_toNat_le]
    have pos : (x - a).toNat ≠ 0 := fun zero => nonzero (UInt32.toNat.inj zero)
    exact Nat.one_le_iff_ne_zero.mpr pos
  have step : x - (a + 1) = x - a - 1 := by grind
  rw [step, UInt32.toNat_sub_of_le _ _ one]
  have lower : 1 ≤ (x - a).toNat := UInt32.le_iff_toNat_le.mp one
  exact (Nat.sub_add_cancel lower).symm

/-- What lies at an address is the byte that was stored there, or what lay there before. -/
theorem get_putAll (m : Flat) (a x : UInt32) (fits : bs.length < 2 ^ 32) :
    m.putAll a bs x =
      if (x - a).toNat < bs.length then bs.getD (x - a).toNat 0 else m x := by
  induction bs generalizing m a with
  | nil => rfl
  | cons b bs ih =>
      rw [List.length_cons] at fits
      rw [putAll_cons, ih (m.put a b) (a + 1) (by omega), List.length_cons]
      by_cases here : x = a
      · subst here
        have same : (x - x).toNat = 0 := by rw [UInt32.sub_self]; rfl
        have turn : (x - (x + 1)).toNat = 2 ^ 32 - 1 := by
          have value : x - (x + 1) = 0xFFFFFFFF := by grind
          rw [value]
          rfl
        rw [same, turn, if_neg (by omega), if_pos (by omega), put_self, List.getD_cons_zero]
      · rw [toNat_sub_succ here, put_of_ne m b here]
        by_cases inside : (x - (a + 1)).toNat < bs.length
        · rw [if_pos inside, if_pos (by omega), List.getD_cons_succ]
        · rw [if_neg inside, if_neg (by omega)]

/-- The address so many places on. -/
theorem toNat_add_sub (a : UInt32) {k : Nat} (lt : k < 2 ^ 32) :
    (a + UInt32.ofNat k - a).toNat = k := by
  have same : a + UInt32.ofNat k - a = UInt32.ofNat k := by grind
  rw [same, UInt32.toNat_ofNat', Nat.mod_eq_of_lt lt]

/-- Only as many bytes as there are do the same to every memory. -/
theorem length_le_of_putAll_take {k : Nat} (fits : bs.length < 2 ^ 32)
    (same : ∀ m : Flat, m.putAll a (bs.take k) = m.putAll a bs) : bs.length ≤ k := by
  by_contra more
  have here := congrFun (same fun _ => bs.getD k 0 + 1) (a + UInt32.ofNat k)
  have short : (bs.take k).length = k := by
    rw [List.length_take]
    omega
  rw [get_putAll _ _ _ (by omega), get_putAll _ _ _ fits, toNat_add_sub a (by omega), short,
    if_neg (Nat.lt_irrefl k), if_pos (by omega)] at here
  have other : ∀ b : UInt8, b + 1 ≠ b := fun b equal => by
    have one : (1 : UInt8) = 0 := by grind
    cases one
  exact other _ here

/-- The bytes from an address on. -/
def bytesAt (m : Flat) (a : UInt32) : Nat → List UInt8
  | 0 => []
  | n + 1 => m a :: bytesAt m (a + 1) n

@[simp] theorem length_bytesAt (m : Flat) (a : UInt32) (n : Nat) :
    (m.bytesAt a n).length = n := by
  induction n generalizing a with
  | zero => rfl
  | succ n ih => rw [bytesAt, List.length_cons, ih]

/-- The byte in some place is the one at the address so many places on. -/
theorem getD_bytesAt (m : Flat) (a : UInt32) {i n : Nat} (lt : i < n) :
    (m.bytesAt a n).getD i 0 = m (a + UInt32.ofNat i) := by
  induction n generalizing a i with
  | zero => exact absurd lt (Nat.not_lt_zero i)
  | succ n ih =>
      cases i with
      | zero =>
          rw [bytesAt, List.getD_cons_zero]
          exact congrArg m (UInt32.add_zero a).symm
      | succ i => rw [bytesAt, List.getD_cons_succ, ih (a + 1) (by omega), add_ofNat_succ]

theorem bytesAt_append (m : Flat) (a : UInt32) (k n : Nat) :
    m.bytesAt a (k + n) = m.bytesAt a k ++ m.bytesAt (a + UInt32.ofNat k) n := by
  induction k generalizing a with
  | zero =>
      rw [Nat.zero_add, bytesAt, List.nil_append]
      congr 1
      exact (UInt32.add_zero a).symm
  | succ k ih => rw [Nat.add_right_comm, bytesAt, bytesAt, ih, add_ofNat_succ, List.cons_append]

end Flat

end Ncd15.Library
