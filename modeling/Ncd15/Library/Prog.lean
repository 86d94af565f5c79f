import Mathlib.Data.List.Basic
import Mathlib.Tactic.Basic

/-!
# Programs over a state, loops and triples

A program changes a state and may fail to finish.  Loops take a number of rounds
after which they give up, so that a program that returns has really run.  A
triple says what holds whenever the program returns; `Prog.bind_eq_of_run` and
its relatives run a program whose steps are known.
-/

namespace Ncd15.Library

/-- A program over states of type `σ`. -/
abbrev Prog (σ α : Type) := StateT σ Option α

namespace Prog

variable {σ α β ι : Type}

/-- Repeat `body` until it returns a result, for at most `rounds` rounds. -/
def loop (body : β → Prog σ (β ⊕ α)) : Nat → β → Prog σ α
  | 0, _ => fun _ => none
  | rounds + 1, b => do
      match ← body b with
      | .inl next => loop body rounds next
      | .inr result => pure result

/-- Run `body` over a list until it returns a result. -/
def firstOf (body : ι → Prog σ (Option α)) : List ι → Prog σ (Option α)
  | [] => pure none
  | i :: rest => do
      match ← body i with
      | none => firstOf body rest
      | some result => pure (some result)

section Run

variable {f : Prog σ α} {g : α → Prog σ β} {s s' : σ} {a : α}

theorem pure_run (a : α) (s : σ) : (pure a : Prog σ α) s = some (a, s) := rfl

theorem bind_run (f : Prog σ α) (g : α → Prog σ β) (s : σ) :
    (f >>= g) s = (f s).bind fun result => g result.1 result.2 := rfl

theorem bind_eq_of_run (first : f s = some (a, s')) : (f >>= g) s = g a s' := by
  rw [bind_run, first]
  rfl

theorem bind_eq_some {b : β} {s'' : σ} (run : (f >>= g) s = some (b, s'')) :
    ∃ a s', f s = some (a, s') ∧ g a s' = some (b, s'') := by
  rw [bind_run, Option.bind_eq_some_iff] at run
  obtain ⟨⟨a, s'⟩, first, second⟩ := run
  exact ⟨a, s', first, second⟩

theorem bind_congr_run {g g' : α → Prog σ β}
    (same : ∀ a s', f s = some (a, s') → g a s' = g' a s') : (f >>= g) s = (f >>= g') s := by
  cases run : f s with
  | none => rw [bind_run, bind_run, run]; rfl
  | some result =>
      obtain ⟨a, s'⟩ := result
      rw [bind_eq_of_run run, bind_eq_of_run run]
      exact same a s' run

theorem get_bind_run (g : σ → Prog σ β) (s : σ) : ((get : Prog σ σ) >>= g) s = g s s := rfl

theorem modify_bind_run (change : σ → σ) (g : Unit → Prog σ β) (s : σ) :
    ((modify change : Prog σ Unit) >>= g) s = g () (change s) := rfl

theorem loop_inl {body : β → Prog σ (β ⊕ α)} {b next : β} {rounds : Nat}
    (step : body b s = some (.inl next, s')) :
    loop body (rounds + 1) b s = loop body rounds next s' :=
  bind_eq_of_run step

theorem loop_inr {body : β → Prog σ (β ⊕ α)} {b : β} {rounds : Nat}
    (step : body b s = some (.inr a, s')) :
    loop body (rounds + 1) b s = some (a, s') :=
  bind_eq_of_run step

/-- Loops that agree in their first round agree. -/
theorem loop_congr {body : β → Prog σ (β ⊕ α)} {b b' : β} (same : body b s = body b' s')
    (rounds : Nat) : loop body (rounds + 1) b s = loop body (rounds + 1) b' s' := by
  change (body b s).bind _ = (body b' s').bind _
  rw [same]

theorem firstOf_none {body : ι → Prog σ (Option α)} {i : ι} {rest : List ι}
    (step : body i s = some (none, s')) :
    firstOf body (i :: rest) s = firstOf body rest s' :=
  bind_eq_of_run step

theorem firstOf_some {body : ι → Prog σ (Option α)} {i : ι} {rest : List ι}
    (step : body i s = some (some a, s')) :
    firstOf body (i :: rest) s = some (some a, s') :=
  bind_eq_of_run step

/-- A loop comes to an end when each of its rounds ends it, goes on with a smaller state, or
is the last but one. -/
theorem loop_ends {γ : Type} {r : γ → γ → Prop} (wf : WellFounded r) (measure : σ → γ)
    {I : σ → Prop} {body : β → Prog σ (β ⊕ α)}
    (round : ∀ b s, I s → (∃ a s', body b s = some (.inr a, s')) ∨
      ∃ b' s', body b s = some (.inl b', s') ∧ I s' ∧
        (r (measure s') (measure s) ∨ ∃ a s'', body b' s' = some (.inr a, s'')))
    (b : β) (start : I s) : ∃ rounds a s', loop body rounds b s = some (a, s') := by
  induction size : measure s using wf.induction generalizing b s with
  | _ size ih =>
      rcases round b s start with ⟨a, s', ends⟩ | ⟨b', s', goes, kept, smaller | ⟨a, s'', ends⟩⟩
      · exact ⟨1, a, s', loop_inr ends⟩
      · rw [size] at smaller
        obtain ⟨rounds, a, s'', run⟩ := ih _ smaller b' kept rfl
        exact ⟨rounds + 1, a, s'', (loop_inl goes).trans run⟩
      · exact ⟨2, a, s'', (loop_inl goes).trans (loop_inr ends)⟩

/-- A search over a list stops at the first item that is wanted, when every item before it
is passed over. -/
theorem firstOf_find {I : σ → Prop} {body : ι → Prog σ (Option α)} {wanted : ι → Prop}
    {items : List ι}
    (pass : ∀ i ∈ items, ¬ wanted i → ∀ s, I s → ∃ s', body i s = some (none, s') ∧ I s')
    (start : I s) :
    (∃ before i after s', items = before ++ i :: after ∧ wanted i ∧ (∀ j ∈ before, ¬ wanted j) ∧
        I s' ∧ firstOf body items s = firstOf body (i :: after) s') ∨
      ((∀ i ∈ items, ¬ wanted i) ∧ ∃ s', firstOf body items s = some (none, s') ∧ I s') := by
  induction items generalizing s with
  | nil => exact Or.inr ⟨by simp, s, rfl, start⟩
  | cons i rest ih =>
      by_cases found : wanted i
      · exact Or.inl ⟨[], i, rest, s, rfl, found, by simp, start, rfl⟩
      · obtain ⟨s₁, step, kept⟩ := pass i List.mem_cons_self found s start
        have rest_pass : ∀ j ∈ rest, ¬ wanted j → ∀ s, I s →
            ∃ s', body j s = some (none, s') ∧ I s' :=
          fun j mem => pass j (List.mem_cons_of_mem i mem)
        rcases ih rest_pass kept with ⟨before, j, after, s', split, wants, none, kept', run⟩ |
          ⟨none, s', run, kept'⟩
        · refine Or.inl ⟨i :: before, j, after, s', by rw [split, List.cons_append], wants, ?_,
            kept', (firstOf_none step).trans run⟩
          exact List.forall_mem_cons.mpr ⟨found, none⟩
        · exact Or.inr ⟨List.forall_mem_cons.mpr ⟨found, none⟩, s', (firstOf_none step).trans run,
            kept'⟩

end Run

end Prog

/-- Whenever `f` returns from a state with `P`, its result and the state it leaves
satisfy `Q`. -/
def Triple {σ α : Type} (P : σ → Prop) (f : Prog σ α) (Q : α → σ → Prop) : Prop :=
  ∀ s, P s → ∀ a s', f s = some (a, s') → Q a s'

namespace Triple

variable {σ α β ι : Type} {P P' : σ → Prop} {Q Q' : α → σ → Prop} {R : β → σ → Prop}

theorem pure {a : α} (post : ∀ s, P s → Q a s) : Triple P (pure a) Q := by
  intro s pre a' s' run
  obtain ⟨rfl, rfl⟩ := Prod.mk.inj (Option.some.inj run)
  exact post s pre

/-- A program that begins by reading the state. -/
theorem get_then {f : σ → Prog σ α} (rest : ∀ s, P s → Triple (· = s) (f s) Q) :
    Triple P (get >>= f) Q := by
  intro s pre a s' run
  exact rest s pre s rfl a s' run

/-- The same when the rest is right for any state read. -/
theorem get_any {f : σ → Prog σ α} (rest : ∀ s, Triple P (f s) Q) : Triple P (get >>= f) Q :=
  fun s pre a s' run => rest s s pre a s' run

theorem get {Q : σ → σ → Prop} (post : ∀ s, P s → Q s s) : Triple P (get : Prog σ σ) Q := by
  intro s pre a s' run
  obtain ⟨rfl, rfl⟩ := Prod.mk.inj (Option.some.inj run)
  exact post s pre

theorem or {f : Prog σ α} (left : Triple P f Q) (right : Triple P' f Q) :
    Triple (fun s => P s ∨ P' s) f Q := by
  intro s pre a s' run
  rcases pre with pre | pre
  · exact left s pre a s' run
  · exact right s pre a s' run

theorem modify {change : σ → σ} {Q : Unit → σ → Prop} (post : ∀ s, P s → Q () (change s)) :
    Triple P (modify change : Prog σ Unit) Q := by
  intro s pre a s' run
  obtain ⟨rfl, rfl⟩ := Prod.mk.inj (Option.some.inj run)
  exact post s pre

theorem bind {f : Prog σ α} {g : α → Prog σ β} (first : Triple P f Q)
    (second : ∀ a, Triple (Q a) (g a) R) : Triple P (f >>= g) R := by
  intro s pre b s'' run
  obtain ⟨a, s', firstRun, secondRun⟩ := Prog.bind_eq_some run
  exact second a s' (first s pre a s' firstRun) b s'' secondRun

theorem conseq {f : Prog σ α} (triple : Triple P f Q) (pre : ∀ s, P' s → P s)
    (post : ∀ a s, Q a s → Q' a s) : Triple P' f Q' :=
  fun s holds a s' run => post a s' (triple s (pre s holds) a s' run)

theorem weaken {f : Prog σ α} (triple : Triple P f Q) (post : ∀ a s, Q a s → Q' a s) :
    Triple P f Q' :=
  triple.conseq (fun _ => id) post

theorem strengthen {f : Prog σ α} (triple : Triple P f Q) (pre : ∀ s, P' s → P s) :
    Triple P' f Q :=
  triple.conseq pre fun _ _ => id

theorem ite {c : Prop} [Decidable c] {f g : Prog σ α} (yes : c → Triple P f Q)
    (no : ¬ c → Triple P g Q) : Triple P (if c then f else g) Q := by
  by_cases holds : c
  · rw [if_pos holds]
    exact yes holds
  · rw [if_neg holds]
    exact no holds

/-- A fact about values that the precondition implies may be used in the proof. -/
theorem assuming {φ : Prop} {f : Prog σ α} (implied : ∀ s, P s → φ)
    (triple : φ → Triple P f Q) : Triple P f Q :=
  fun s pre => triple (implied s pre) s pre

theorem false {f : Prog σ α} (absurd : ∀ s, ¬ P s) : Triple P f Q :=
  fun s pre => (absurd s pre).elim

/-- The invariant rule: `I` holds before every round. -/
theorem loop {I : β → σ → Prop} {body : β → Prog σ (β ⊕ α)}
    (round : ∀ b, Triple (I b) (body b) (Sum.elim I Q))
    (rounds : Nat) (b : β) : Triple (I b) (Prog.loop body rounds b) Q := by
  induction rounds generalizing b with
  | zero =>
      intro s _ a s' run
      simp [Prog.loop] at run
  | succ rounds ih =>
      rw [Prog.loop]
      refine bind (round b) fun result => ?_
      cases result with
      | inl next => exact ih next
      | inr a => exact pure fun s post => post

theorem loop_keeps {I : σ → Prop} {body : β → Prog σ (β ⊕ α)}
    (round : ∀ b, Triple I (body b) fun _ => I) (rounds : Nat) (b : β) :
    Triple I (Prog.loop body rounds b) fun _ => I := by
  have rule : ∀ b, Triple I (body b) (Sum.elim (fun _ => I) fun _ => I) := by
    intro b
    refine (round b).weaken fun result s holds => ?_
    cases result <;> exact holds
  exact loop rule rounds b

theorem firstOf {I : σ → Prop} {body : ι → Prog σ (Option α)} {Q : Option α → σ → Prop}
    (items : List ι)
    (round : ∀ i ∈ items, Triple I (body i) fun result s =>
      match result with
      | none => I s
      | some a => Q (some a) s)
    (exhausted : ∀ s, I s → Q none s) : Triple I (Prog.firstOf body items) Q := by
  induction items with
  | nil => exact pure exhausted
  | cons i rest ih =>
      rw [Prog.firstOf]
      refine bind (round i List.mem_cons_self) fun result => ?_
      cases result with
      | none => exact ih fun j mem => round j (List.mem_cons_of_mem i mem)
      | some a => exact pure fun s post => post

theorem firstOf_keeps {I : σ → Prop} {body : ι → Prog σ (Option α)} (items : List ι)
    (round : ∀ i ∈ items, Triple I (body i) fun _ => I) :
    Triple I (Prog.firstOf body items) fun _ => I := by
  refine firstOf items (fun i mem => (round i mem).weaken fun result s holds => ?_)
    fun _ => id
  cases result <;> exact holds

end Triple

/-- The program returns from every state. -/
def Total {σ α : Type} (f : Prog σ α) : Prop := ∀ s, ∃ a s', f s = some (a, s')

namespace Total

variable {σ α β : Type}

theorem pure (a : α) : Total (pure a : Prog σ α) := fun s => ⟨a, s, rfl⟩

theorem get : Total (get : Prog σ σ) := fun s => ⟨s, s, rfl⟩

theorem modify (change : σ → σ) : Total (modify change : Prog σ Unit) :=
  fun s => ⟨(), change s, rfl⟩

theorem bind {f : Prog σ α} {g : α → Prog σ β} (first : Total f) (second : ∀ a, Total (g a)) :
    Total (f >>= g) := by
  intro s
  obtain ⟨a, s', run⟩ := first s
  obtain ⟨b, s'', rest⟩ := second a s'
  exact ⟨b, s'', (Prog.bind_eq_of_run run).trans rest⟩

theorem ite {c : Prop} [Decidable c] {f g : Prog σ α} (yes : Total f) (no : Total g) :
    Total (if c then f else g) := by
  split
  · exact yes
  · exact no

theorem firstOf {ι : Type} {body : ι → Prog σ (Option α)} (round : ∀ i, Total (body i))
    (items : List ι) : Total (Prog.firstOf body items) := by
  induction items with
  | nil => exact pure none
  | cons i rest ih =>
      refine bind (round i) fun found => ?_
      cases found with
      | none => exact ih
      | some result => exact pure (some result)

end Total

/-- The states in which the rounds of a loop begin. -/
inductive Rounds {σ α β : Type} (body : β → Prog σ (β ⊕ α)) (b : β) (s : σ) : β → σ → Prop
  | start : Rounds body b s b s
  | next {b' b'' : β} {s' s'' : σ} (before : Rounds body b s b' s')
      (round : body b' s' = some (.inl b'', s'')) : Rounds body b s b'' s''

/-- The view of the state is the same whenever `f` returns. -/
def Keeps {σ α ν : Type} (view : σ → ν) (f : Prog σ α) : Prop :=
  ∀ s a s', f s = some (a, s') → view s' = view s

namespace Keeps

variable {σ α β ν : Type} {view : σ → ν}

theorem pure (a : α) : Keeps view (pure a : Prog σ α) := by
  intro s a' s' run
  obtain ⟨rfl, rfl⟩ := Prod.mk.inj (Option.some.inj run)
  rfl

theorem get : Keeps view (get : Prog σ σ) := by
  intro s a s' run
  obtain ⟨rfl, rfl⟩ := Prod.mk.inj (Option.some.inj run)
  rfl

theorem modify {change : σ → σ} (same : ∀ s, view (change s) = view s) :
    Keeps view (modify change : Prog σ Unit) := by
  intro s a s' run
  obtain ⟨rfl, rfl⟩ := Prod.mk.inj (Option.some.inj run)
  exact same s

theorem bind {f : Prog σ α} {g : α → Prog σ β} (first : Keeps view f)
    (second : ∀ a, Keeps view (g a)) : Keeps view (f >>= g) := by
  intro s b s'' run
  obtain ⟨a, s', firstRun, secondRun⟩ := Prog.bind_eq_some run
  exact (second a s' b s'' secondRun).trans (first s a s' firstRun)

theorem ite {c : Prop} [Decidable c] {f g : Prog σ α} (yes : Keeps view f)
    (no : Keeps view g) : Keeps view (if c then f else g) := by
  split
  · exact yes
  · exact no

theorem loop {body : β → Prog σ (β ⊕ α)} (round : ∀ b, Keeps view (body b)) (rounds : Nat)
    (b : β) : Keeps view (Prog.loop body rounds b) := by
  induction rounds generalizing b with
  | zero =>
      intro s a s' run
      simp [Prog.loop] at run
  | succ rounds ih =>
      rw [Prog.loop]
      refine bind (round b) fun result => ?_
      cases result with
      | inl next => exact ih next
      | inr a => exact pure a

/-- What depends on the view alone is kept. -/
theorem triple {f : Prog σ α} (keeps : Keeps view f) {P : σ → Prop}
    (depends : ∀ s s', view s' = view s → P s → P s') : Triple P f fun _ => P :=
  fun s pre a s' run => depends s s' (keeps s a s' run) pre

end Keeps

/-- From two related states the program gives the same result and leaves states that are
related again; when the first run ends, so does the second. -/
def Alike {σ α : Type} (R : σ → σ → Prop) (f : Prog σ α) (S : α → σ → σ → Prop) : Prop :=
  ∀ s t, R s t → ∀ a s', f s = some (a, s') → ∃ t', f t = some (a, t') ∧ S a s' t'

namespace Alike

variable {σ α β : Type} {R R' : σ → σ → Prop} {S : α → σ → σ → Prop}

theorem pure {a : α} (post : ∀ s t, R s t → S a s t) : Alike R (pure a : Prog σ α) S := by
  rintro s t related a s' ⟨⟩
  exact ⟨t, rfl, post s t related⟩

theorem bind {f : Prog σ α} {g : α → Prog σ β} {S' : β → σ → σ → Prop} (first : Alike R f S)
    (second : ∀ a, Alike (S a) (g a) S') : Alike R (f >>= g) S' := by
  intro s t related b s'' run
  obtain ⟨a, s', run, rest⟩ := Prog.bind_eq_some run
  obtain ⟨t', there, related'⟩ := first s t related a s' run
  rw [Prog.bind_eq_of_run there]
  exact second a s' t' related' b s'' rest

theorem strengthen {f : Prog σ α} (alike : Alike R f S) (pre : ∀ s t, R' s t → R s t) :
    Alike R' f S :=
  fun s t related => alike s t (pre s t related)

theorem ite {c : Prop} [Decidable c] {f g : Prog σ α} (yes : c → Alike R f S)
    (no : ¬ c → Alike R g S) : Alike R (if c then f else g) S := by
  split
  · exact yes ‹c›
  · exact no ‹¬ c›

theorem loop_keeps {body : β → Prog σ (β ⊕ α)} (round : ∀ b, Alike R (body b) fun _ => R)
    (rounds : Nat) (b : β) : Alike R (Prog.loop body rounds b) fun _ => R := by
  induction rounds generalizing b with
  | zero =>
      intro s t _ a s' run
      simp [Prog.loop] at run
  | succ rounds ih =>
      refine bind (round b) fun result => ?_
      cases result with
      | inl next => exact ih next
      | inr a => exact pure fun _ _ => id

end Alike

/-- A program that does not look at what `erase` takes away: it does the same from
an erased state, up to erasing the state it leaves. -/
def Unread {σ α : Type} (erase : σ → σ) (f : Prog σ α) : Prop :=
  ∀ s, (f (erase s)).map (Prod.map id erase) = (f s).map (Prod.map id erase)

namespace Unread

variable {σ α β ι : Type} {erase : σ → σ}

theorem pure (a : α) (idempotent : ∀ s, erase (erase s) = erase s) :
    Unread erase (pure a : Prog σ α) := by
  intro s
  simp [Prog.pure_run, idempotent]

/-- The run from an erased state ends like the other one. -/
theorem run {f : Prog σ α} (unread : Unread erase f) {s s' : σ} {a : α}
    (run : f s = some (a, s')) : ∃ t, f (erase s) = some (a, t) ∧ erase t = erase s' := by
  have same := unread s
  rw [run] at same
  obtain ⟨⟨a', t⟩, erased, result⟩ := Option.map_eq_some_iff.mp same
  obtain ⟨rfl, left⟩ := Prod.mk.inj result
  exact ⟨t, erased, left⟩

/-- The other run ends like the one from the erased state. -/
theorem run_back {f : Prog σ α} (unread : Unread erase f) {s t : σ} {a : α}
    (run : f (erase s) = some (a, t)) : ∃ s', f s = some (a, s') ∧ erase t = erase s' := by
  have same := unread s
  rw [run] at same
  obtain ⟨⟨a', s'⟩, here, result⟩ := Option.map_eq_some_iff.mp same.symm
  obtain ⟨rfl, left⟩ := Prod.mk.inj result
  exact ⟨s', here, left.symm⟩

theorem bind {f : Prog σ α} {g : α → Prog σ β} (first : Unread erase f)
    (second : ∀ a, Unread erase (g a)) : Unread erase (f >>= g) := by
  intro s
  rw [Prog.bind_run, Prog.bind_run]
  cases here : f s with
  | none =>
      have erased := first s
      rw [here, Option.map_none, Option.map_eq_none_iff] at erased
      simp [erased]
  | some result =>
      obtain ⟨a, s'⟩ := result
      obtain ⟨t, erased, left⟩ := first.run here
      have there := second a t
      rw [left] at there
      rw [erased]
      exact there.symm.trans (second a s')

theorem ite {c : Prop} [Decidable c] {f g : Prog σ α} (yes : Unread erase f)
    (no : Unread erase g) : Unread erase (if c then f else g) := by
  split
  · exact yes
  · exact no

theorem loop {body : β → Prog σ (β ⊕ α)} (idempotent : ∀ s, erase (erase s) = erase s)
    (round : ∀ b, Unread erase (body b)) (rounds : Nat) (b : β) :
    Unread erase (Prog.loop body rounds b) := by
  induction rounds generalizing b with
  | zero => exact fun _ => rfl
  | succ rounds ih =>
      refine bind (round b) fun result => ?_
      cases result with
      | inl next => exact ih next
      | inr a => exact pure a idempotent

theorem firstOf {body : ι → Prog σ (Option α)} (idempotent : ∀ s, erase (erase s) = erase s)
    (round : ∀ i, Unread erase (body i)) (items : List ι) :
    Unread erase (Prog.firstOf body items) := by
  induction items with
  | nil => exact pure _ idempotent
  | cons i rest ih =>
      refine bind (round i) fun result => ?_
      cases result with
      | none => exact ih
      | some a => exact pure _ idempotent

end Unread

end Ncd15.Library
