import Ncd15.Library.Prog
import Ncd15.Xcpm.Console
import Mathlib.Data.Nat.Factors

/-!
# The `factor` command

Trial division with 32-bit words.  The square of the divisor that the loop compares wraps from
65536 on; it is never more than the square itself, so that what is left is prime whenever the
loop stops.
-/

namespace Ncd15.Xcpm

open Ncd15.Library

section Model

/-- One round of `while (n % d == 0)`; the numbers printed so far are the state. -/
def divideRound (d n : Nat) : Prog (List Nat) (Nat ⊕ Nat) :=
  if n % d = 0 then do
    modify (· ++ [d])
    pure (.inl (n / d))
  else pure (.inr n)

/-- One round of `while (n > 1)`. -/
def factorRound (rounds : Nat) (at_ : Nat × Nat) : Prog (List Nat) ((Nat × Nat) ⊕ Unit) := do
  let (n, d) := at_
  if 1 < n then do
    let n ← Prog.loop (divideRound d) rounds n
    let d := (d + 1) % 2 ^ 32
    if n < d * d % 2 ^ 32 ∧ 1 < n then do
      modify (· ++ [n])
      pure (.inr ())
    else pure (.inl (n, d))
  else pure (.inr ())

/-- The loops of `cmd_factor`. -/
def factorLoop (rounds n : Nat) : Prog (List Nat) Unit :=
  Prog.loop (factorRound rounds) rounds (n, 2)

/-- `cmd_factor`, when the argument is given; `none` when it is still running. -/
def cmdFactor (rounds : Nat) (arg : List UInt8) : Option (List UInt8) :=
  match parseNum arg with
  | none => some (puts (ascii "?N >= 2\r\n"))
  | some n =>
      if n < 2 then some (puts (ascii "?N >= 2\r\n"))
      else (factorLoop rounds n []).map fun (_, printed) =>
        putdec n ++ ascii ":" ++ printed.flatMap (fun d => 32 :: putdec d) ++ crlf

end Model

section Division

variable {n d rounds : Nat} {printed : List Nat}

/-- No prime below the divisor divides what is left. -/
def Rough (d n : Nat) : Prop := ∀ p, p.Prime → p ∣ n → d ≤ p

/-- A divisor of such a number is the smallest of its prime factors. -/
theorem Rough.factors (rough : Rough d n) (two : 2 ≤ d) (pos : 0 < n) (dvd : d ∣ n) :
    n.primeFactorsList = d :: (n / d).primeFactorsList := by
  have le : d ≤ n := Nat.le_of_dvd pos dvd
  have least : n.minFac = d := by
    apply le_antisymm
    · exact Nat.minFac_le_of_dvd two dvd
    · exact rough n.minFac (Nat.minFac_prime (by omega)) (Nat.minFac_dvd n)
  obtain ⟨m, rfl⟩ : ∃ m, n = m + 2 := ⟨n - 2, by omega⟩
  rw [Nat.primeFactorsList_add_two, least]

/-- When the square of the divisor is beyond it, what is left is prime. -/
theorem Rough.prime (rough : Rough d n) (one : 1 < n) (beyond : n < d * d) : n.Prime := by
  by_contra composite
  have square := Nat.minFac_sq_le_self (by omega) composite
  have le := rough n.minFac (Nat.minFac_prime (by omega)) (Nat.minFac_dvd n)
  have squares : d * d ≤ n.minFac ^ 2 := by
    rw [pow_two]
    exact Nat.mul_le_mul le le
  omega

theorem Rough.le (rough : Rough d n) (one : 1 < n) : d ≤ n :=
  (rough n.minFac (Nat.minFac_prime (by omega)) (Nat.minFac_dvd n)).trans
    (Nat.minFac_le (by omega))

/-- The inner loop prints a divisor as often as it divides. -/
theorem divideLoop_run (printed : List Nat) (rough : Rough d n) (two : 2 ≤ d) (pos : 0 < n)
    (enough : n < rounds) :
    ∃ left printed', Prog.loop (divideRound d) rounds n printed = some (left, printed') ∧
      printed' ++ left.primeFactorsList = printed ++ n.primeFactorsList ∧
      Rough (d + 1) left ∧ 0 < left ∧ left ≤ n := by
  induction rounds generalizing n printed with
  | zero => exact absurd enough (Nat.not_lt_zero n)
  | succ rounds ih =>
      by_cases divides : n % d = 0
      · have dvd : d ∣ n := Nat.dvd_of_mod_eq_zero divides
        have step : divideRound d n printed = some (.inl (n / d), printed ++ [d]) := by
          rw [divideRound, if_pos divides]
          rfl
        have less : n / d < n := Nat.div_lt_self pos two
        have rough' : Rough d (n / d) := fun p prime part =>
          rough p prime (part.trans (Nat.div_dvd_of_dvd dvd))
        obtain ⟨left, printed', run, same, rough'', pos', le⟩ := ih (printed ++ [d])
          rough' (Nat.div_pos (Nat.le_of_dvd pos dvd) (by omega)) (by omega)
        refine ⟨left, printed', (Prog.loop_inl step).trans run, ?_, rough'', pos', by omega⟩
        rw [same, rough.factors two pos dvd, List.append_assoc, List.singleton_append]
      · have step : divideRound d n printed = some (.inr n, printed) := by
          rw [divideRound, if_neg divides]
          rfl
        refine ⟨n, printed, Prog.loop_inr step, rfl, ?_, pos, Nat.le_refl n⟩
        intro p prime dvd
        have other : p ≠ d := by
          rintro rfl
          exact divides (Nat.mod_eq_zero_of_dvd dvd)
        have le := rough p prime dvd
        omega

end Division

section Factors

variable {n d rounds total : Nat} {printed : List Nat}

theorem factorLoop_one (some_ : 0 < rounds) :
    Prog.loop (factorRound total) rounds (1, d) printed = some ((), printed) := by
  obtain ⟨rounds, rfl⟩ : ∃ less, rounds = less + 1 := ⟨rounds - 1, by omega⟩
  apply Prog.loop_inr
  rw [factorRound]
  rfl

/-- What is printed and the factors of what is left stay the same together. -/
theorem factorLoop_run (rough : Rough d n) (two : 2 ≤ d) (pos : 0 < n) (word : n < 2 ^ 32)
    (small : n < total) (some_ : 0 < rounds) (enough : n + 2 ≤ d + rounds) :
    Prog.loop (factorRound total) rounds (n, d) printed =
      some ((), printed ++ n.primeFactorsList) := by
  induction rounds generalizing n d printed with
  | zero => exact absurd some_ (Nat.lt_irrefl 0)
  | succ rounds ih =>
      by_cases one : 1 < n
      · obtain ⟨left, printed', divided, same, rough', pos', le⟩ :=
          divideLoop_run printed rough two pos small
        have within : d ≤ n := rough.le one
        by_cases stop : left < (d + 1) % 2 ^ 32 * ((d + 1) % 2 ^ 32) % 2 ^ 32 ∧ 1 < left
        · -- The square that is compared is at most that of `d + 1`.
          have wrapped : (d + 1) % 2 ^ 32 * ((d + 1) % 2 ^ 32) % 2 ^ 32 ≤ (d + 1) * (d + 1) :=
            (Nat.mod_le _ _).trans (Nat.mul_le_mul (Nat.mod_le _ _) (Nat.mod_le _ _))
          have prime : left.Prime := rough'.prime stop.2 (by omega)
          have step : factorRound total (n, d) printed = some (.inr (), printed' ++ [left]) := by
            rw [factorRound]
            dsimp only
            rw [if_pos one, Prog.bind_eq_of_run divided, if_pos stop]
            rfl
          rw [Prog.loop_inr step, ← same, Nat.primeFactorsList_prime prime]
        · have step : factorRound total (n, d) printed =
              some (.inl (left, (d + 1) % 2 ^ 32), printed') := by
            rw [factorRound]
            dsimp only
            rw [if_pos one, Prog.bind_eq_of_run divided, if_neg stop]
            rfl
          rw [Prog.loop_inl step, ← same]
          by_cases more : 1 < left
          · have next : d + 1 ≤ left := rough'.le more
            have plain : (d + 1) % 2 ^ 32 = d + 1 := Nat.mod_eq_of_lt (by omega)
            rw [plain]
            exact ih rough' (by omega) pos' (by omega) (by omega) (by omega) (by omega)
          · obtain rfl : left = 1 := by omega
            rw [factorLoop_one (by omega), Nat.primeFactorsList_one, List.append_nil]
      · obtain rfl : n = 1 := by omega
        rw [factorLoop_one (Nat.succ_pos rounds), Nat.primeFactorsList_one, List.append_nil]

/-- The loop terminates and prints the prime factors of the number, the smallest first. -/
theorem factor_prints_primes (two : 2 ≤ n) (word : n < 2 ^ 32) :
    ∃ primes : List Nat,
      factorLoop (n + 1) n [] = some ((), primes) ∧
      primes.Pairwise (· ≤ ·) ∧ (∀ p ∈ primes, p.Prime) ∧ primes.prod = n ∧
      ∀ arg, parseNum arg = some n →
        cmdFactor (n + 1) arg = some (putdec n ++ ascii ":" ++
          primes.flatMap (fun d => 32 :: putdec d) ++ crlf) := by
  have rough : Rough 2 n := fun p prime _ => prime.two_le
  have run : factorLoop (n + 1) n [] = some ((), n.primeFactorsList) :=
    factorLoop_run rough (Nat.le_refl 2) (by omega) word (Nat.lt_succ_self n) (Nat.succ_pos n)
      (by omega)
  refine ⟨n.primeFactorsList, run, ?_, ?_, ?_, ?_⟩
  · exact (Nat.primeFactorsList_sorted n).pairwise
  · exact fun p member => Nat.prime_of_mem_primeFactorsList member
  · exact Nat.prod_primeFactorsList (by omega)
  · intro arg parsed
    rw [cmdFactor, parsed]
    dsimp only
    rw [if_neg (by omega), run]
    rfl

theorem factor_prints_primes_largest :
    ∃ primes : List Nat,
      factorLoop (4294967291 + 1) 4294967291 [] = some ((), primes) ∧
      primes.Pairwise (· ≤ ·) ∧ (∀ p ∈ primes, p.Prime) ∧ primes.prod = 4294967291 ∧
      ∀ arg, parseNum arg = some 4294967291 →
        cmdFactor (4294967291 + 1) arg = some (putdec 4294967291 ++ ascii ":" ++
          primes.flatMap (fun d => 32 :: putdec d) ++ crlf) :=
  factor_prints_primes (by decide) (by decide)

end Factors

end Ncd15.Xcpm
