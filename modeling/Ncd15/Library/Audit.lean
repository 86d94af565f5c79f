import Ncd15.Library.Prog

/-!
# Programs with a record beside them

A program over a state may be run beside a record of what it has done.  The record stays when
the program gives up, so that it also tells of runs that do not return.  Such a program follows
a plain one when it does the same to the state; the rules prove this together with what the
record says.
-/

namespace Ncd15.Library

/-- A program that keeps its state when it does not finish. -/
def Audit (τ α : Type) := τ → Option α × τ

namespace Audit

variable {σ τ α β : Type}

instance : Monad (Audit τ) where
  pure a := fun t => (some a, t)
  bind f g := fun t =>
    match f t with
    | (some a, t') => g a t'
    | (none, t') => (none, t')

/-- `Prog.loop`. -/
def loop (body : β → Audit τ (β ⊕ α)) : Nat → β → Audit τ α
  | 0, _ => fun t => (none, t)
  | rounds + 1, b => do
      match ← body b with
      | .inl next => loop body rounds next
      | .inr result => pure result

/-- From a state with `P`, `a` does what `p` does, leaves a record that is good, and returns
only with `Q`. -/
def Follows (plain : τ → σ) (Good : τ → Prop) (P : σ → Prop) (a : Audit τ α) (p : Prog σ α)
    (Q : α → σ → Prop) : Prop :=
  ∀ t, Good t → P (plain t) →
    Good (a t).2 ∧ p (plain t) = (a t).1.map (fun x => (x, plain (a t).2)) ∧
      ∀ x, (a t).1 = some x → Q x (plain (a t).2)

namespace Follows

variable {plain : τ → σ} {Good : τ → Prop} {P P' : σ → Prop} {Q Q' : α → σ → Prop}
  {R : β → σ → Prop}

theorem pure {x : α} (post : ∀ s, P s → Q x s) :
    Follows plain Good P (pure x : Audit τ α) (pure x) Q := by
  intro t good pre
  refine ⟨good, rfl, fun y same => ?_⟩
  obtain rfl := Option.some.inj same
  exact post _ pre

theorem bind {a : Audit τ α} {p : Prog σ α} {b : α → Audit τ β} {q : α → Prog σ β}
    (first : Follows plain Good P a p Q)
    (second : ∀ x, Follows plain Good (Q x) (b x) (q x) R) :
    Follows plain Good P (a >>= b) (p >>= q) R := by
  intro t good pre
  obtain ⟨good', same, post⟩ := first t good pre
  change Good (match a t with | (some x, t') => b x t' | (none, t') => (none, t')).2 ∧
    (p (plain t)).bind (fun result => q result.1 result.2) = _ ∧ _
  cases run : a t with
  | mk x t' =>
      rw [run] at good' same post
      cases x with
      | none =>
          rw [same]
          have gives : (a >>= b) t = (none, t') := by
            change (match a t with | (some x, t') => b x t' | (none, t') => (none, t')) = _
            rw [run]
          rw [gives]
          exact ⟨good', rfl, nofun⟩
      | some x =>
          have goes : (a >>= b) t = b x t' := by
            change (match a t with | (some x, t') => b x t' | (none, t') => (none, t')) = _
            rw [run]
          rw [same, goes]
          exact second x t' good' (post x rfl)

theorem ite {c : Prop} [Decidable c] {a b : Audit τ α} {p q : Prog σ α}
    (yes : c → Follows plain Good P a p Q) (no : ¬ c → Follows plain Good P b q Q) :
    Follows plain Good P (if c then a else b) (if c then p else q) Q := by
  by_cases holds : c
  · rw [if_pos holds, if_pos holds]
    exact yes holds
  · rw [if_neg holds, if_neg holds]
    exact no holds

theorem conseq {a : Audit τ α} {p : Prog σ α} (follows : Follows plain Good P a p Q)
    (pre : ∀ s, P' s → P s) (post : ∀ x s, Q x s → Q' x s) :
    Follows plain Good P' a p Q' := by
  intro t good holds
  obtain ⟨good', same, after⟩ := follows t good (pre _ holds)
  exact ⟨good', same, fun x returned => post x _ (after x returned)⟩

/-- The invariant rule: `I` holds before every round. -/
theorem loop {I : β → σ → Prop} {body : β → Audit τ (β ⊕ α)} {round : β → Prog σ (β ⊕ α)}
    (step : ∀ b, Follows plain Good (I b) (body b) (round b) (Sum.elim I Q)) (rounds : Nat)
    (b : β) : Follows plain Good (I b) (Audit.loop body rounds b) (Prog.loop round rounds b) Q := by
  induction rounds generalizing b with
  | zero => exact fun t good pre => ⟨good, rfl, nofun⟩
  | succ rounds ih =>
      refine bind (step b) fun result => ?_
      cases result with
      | inl next => exact ih next
      | inr result => exact pure fun s post => post

end Follows

end Audit

end Ncd15.Library
