import Ncd15.Library.Prog

/-!
# Programs that take a number of rounds

A program whose loops give up after a number of rounds returns when some number is enough.
More rounds do no harm, so that the parts of a program need not use the same number.  A loop
within a loop returns exactly when the one loop does that makes the rounds of both.
-/

namespace Ncd15.Library

variable {σ α β ρ : Type}

/-- The second program returns whatever the first one returns. -/
def Extends (f g : Prog σ α) : Prop := ∀ s r, f s = some r → g s = some r

namespace Extends

theorem refl (f : Prog σ α) : Extends f f := fun _ _ => id

theorem bind {f f' : Prog σ α} {g g' : α → Prog σ β} (first : Extends f f')
    (second : ∀ a, Extends (g a) (g' a)) : Extends (f >>= g) (f' >>= g') := by
  rintro s ⟨b, s''⟩ run
  obtain ⟨a, s', run, rest⟩ := Prog.bind_eq_some run
  rw [Prog.bind_eq_of_run (first s _ run)]
  exact second a s' _ rest

theorem ite {c : Prop} [Decidable c] {f f' g g' : Prog σ α} (yes : Extends f f')
    (no : Extends g g') : Extends (if c then f else g) (if c then f' else g') := by
  split
  · exact yes
  · exact no

theorem loop {body body' : β → Prog σ (β ⊕ α)} (round : ∀ b, Extends (body b) (body' b))
    {rounds rounds' : Nat} (le : rounds ≤ rounds') (b : β) :
    Extends (Prog.loop body rounds b) (Prog.loop body' rounds' b) := by
  induction rounds generalizing rounds' b with
  | zero =>
      intro s r run
      simp [Prog.loop] at run
  | succ rounds ih =>
      obtain ⟨more, rfl⟩ : ∃ more, rounds' = more + 1 := ⟨rounds' - 1, by omega⟩
      refine bind (round b) fun result => ?_
      cases result with
      | inl next => exact ih (Nat.le_of_succ_le_succ le) next
      | inr a => exact refl _

end Extends

/-- More rounds do no harm. -/
def Fueled (f : Nat → Prog σ α) : Prop :=
  ∀ ⦃rounds rounds'⦄, rounds ≤ rounds' → Extends (f rounds) (f rounds')

/-- With enough rounds the program returns this. -/
def Returns (f : Nat → Prog σ α) (s : σ) (a : α) (s' : σ) : Prop :=
  ∃ rounds, f rounds s = some (a, s')

/-- With enough rounds the program returns. -/
def Ends (f : Nat → Prog σ α) (s : σ) : Prop := ∃ a s', Returns f s a s'

theorem Returns.ends {f : Nat → Prog σ α} {s s' : σ} {a : α} (returns : Returns f s a s') :
    Ends f s := ⟨a, s', returns⟩

theorem Returns.then_run {f : Nat → Prog σ α} {g : α → Prog σ β} {s s' s'' : σ} {a : α} {b : β}
    (first : Returns f s a s') (rest : g a s' = some (b, s'')) :
    Returns (fun rounds => f rounds >>= g) s b s'' := by
  obtain ⟨rounds, run⟩ := first
  exact ⟨rounds, (Prog.bind_eq_of_run run).trans rest⟩

namespace Fueled

variable {f : Nat → Prog σ α} {g : Nat → α → Prog σ β} {s s' s'' : σ} {a : α}

theorem const (f : Prog σ α) : Fueled fun _ => f := fun _ _ _ => Extends.refl f

theorem bind (first : Fueled f) (second : ∀ a, Fueled fun rounds => g rounds a) :
    Fueled fun rounds => f rounds >>= g rounds :=
  fun _ _ le => Extends.bind (first le) fun a => second a le

theorem ite {c : Prop} [Decidable c] {f' : Nat → Prog σ α} (yes : Fueled f) (no : Fueled f') :
    Fueled fun rounds => if c then f rounds else f' rounds :=
  fun _ _ le => Extends.ite (yes le) (no le)

theorem loop {body : Nat → β → Prog σ (β ⊕ α)} (round : ∀ b, Fueled fun rounds => body rounds b)
    (b : β) : Fueled fun rounds => Prog.loop (body rounds) rounds b :=
  fun _ _ le => Extends.loop (fun b => round b le) le b

theorem unique (fueled : Fueled f) {b : α} (first : Returns f s a s')
    (second : Returns f s b s'') : a = b ∧ s' = s'' := by
  obtain ⟨rounds, run⟩ := first
  obtain ⟨rounds', run'⟩ := second
  have here := fueled (Nat.le_max_left rounds rounds') s _ run
  have there := fueled (Nat.le_max_right rounds rounds') s _ run'
  exact Prod.mk.inj (Option.some.inj (here.symm.trans there))

/-- The parts of a program may take numbers of rounds of their own. -/
theorem returns_bind (first : Fueled f) (second : ∀ a, Fueled fun rounds => g rounds a) {b : β} :
    Returns (fun rounds => f rounds >>= g rounds) s b s'' ↔
      ∃ a s', Returns f s a s' ∧ Returns (fun rounds => g rounds a) s' b s'' := by
  constructor
  · rintro ⟨rounds, run⟩
    obtain ⟨a, s', run, rest⟩ := Prog.bind_eq_some run
    exact ⟨a, s', ⟨rounds, run⟩, rounds, rest⟩
  · rintro ⟨a, s', ⟨rounds, run⟩, rounds', rest⟩
    refine ⟨max rounds rounds', ?_⟩
    have here := first (Nat.le_max_left rounds rounds') s _ run
    have there := second a (Nat.le_max_right rounds rounds') s' _ rest
    exact (Prog.bind_eq_of_run here).trans there

theorem ends_bind (first : Fueled f) (second : ∀ a, Fueled fun rounds => g rounds a) :
    Ends (fun rounds => f rounds >>= g rounds) s ↔
      ∃ a s', Returns f s a s' ∧ Ends (fun rounds => g rounds a) s' := by
  constructor
  · rintro ⟨b, s'', returns⟩
    obtain ⟨a, s', run, rest⟩ := (returns_bind first second).mp returns
    exact ⟨a, s', run, rest.ends⟩
  · rintro ⟨a, s', run, b, s'', rest⟩
    exact ((returns_bind first second).mpr ⟨a, s', run, rest⟩).ends

theorem ends_bind_total (first : Fueled f) {g : α → Prog σ β} (total : ∀ a, Total (g a)) :
    Ends (fun rounds => f rounds >>= g) s ↔ Ends f s := by
  refine (first.ends_bind fun a => const (g a)).trans ?_
  constructor
  · rintro ⟨a, s', returns, -⟩
    exact returns.ends
  · rintro ⟨a, s', returns⟩
    obtain ⟨b, s'', run⟩ := total a s'
    exact ⟨a, s', returns, b, s'', 0, run⟩

end Fueled

/-- A program that begins with a step of its own. -/
theorem ends_after {f : Prog σ α} {g : Nat → α → Prog σ β} {s s' : σ} {a : α}
    (run : f s = some (a, s')) :
    Ends (fun rounds => f >>= g rounds) s ↔ Ends (fun rounds => g rounds a) s' := by
  simp only [Ends, Returns, Prog.bind_eq_of_run run]

theorem ends_const {f : Prog σ α} {s s' : σ} {a : α} (run : f s = some (a, s')) :
    Ends (fun _ => f) s := ⟨a, s', 0, run⟩

theorem Total.ends {f : Prog σ α} (total : Total f) (s : σ) : Ends (fun _ => f) s := by
  obtain ⟨a, s', run⟩ := total s
  exact ends_const run

/-- The rule of a decreasing length: a loop whose rounds return returns in fewer rounds than
that. -/
theorem Total.loop {body : β → Prog σ (β ⊕ α)} (length : β → Nat) (round : ∀ b, Total (body b))
    (shorter : ∀ b, Triple (fun _ => True) (body b)
      (Sum.elim (fun next _ => length next < length b) fun _ _ => True))
    {rounds : Nat} {b : β} (enough : length b < rounds) : Total (Prog.loop body rounds b) := by
  induction rounds generalizing b with
  | zero => exact absurd enough (Nat.not_lt_zero _)
  | succ rounds ih =>
      intro s
      obtain ⟨r, s', run⟩ := round b s
      cases r with
      | inr a => exact ⟨a, s', Prog.loop_inr run⟩
      | inl next =>
          have less : length next < length b := shorter b s trivial _ s' run
          obtain ⟨a, s'', rest⟩ := ih (b := next) (by omega) s'
          exact ⟨a, s'', (Prog.loop_inl run).trans rest⟩

/-- Nothing is said of the end. -/
theorem Triple.trivial {f : Prog σ α} : Triple (fun _ => True) f fun _ _ => True :=
  fun _ _ _ _ _ => True.intro

section Loops

variable {body : β → Prog σ (β ⊕ α)}

/-- A loop whose rounds go on for ever does not return. -/
theorem not_ends_loop {I : β → σ → Prop}
    (round : ∀ b s, I b s → ∃ b' s', body b s = some (.inl b', s') ∧ I b' s') {b : β} {s : σ}
    (start : I b s) : ¬ Ends (fun rounds => Prog.loop body rounds b) s := by
  rintro ⟨a, s', rounds, run⟩
  induction rounds generalizing b s with
  | zero => simp [Prog.loop] at run
  | succ rounds ih =>
      obtain ⟨b', s₁, goes, kept⟩ := round b s start
      exact ih kept ((Prog.loop_inl goes).symm.trans run)

theorem ends_loop_inl {b b' : β} {s s' : σ} (step : body b s = some (.inl b', s')) :
    Ends (fun rounds => Prog.loop body rounds b) s ↔
      Ends (fun rounds => Prog.loop body rounds b') s' := by
  constructor
  · rintro ⟨a, s'', rounds, run⟩
    cases rounds with
    | zero => simp [Prog.loop] at run
    | succ rounds => exact ⟨a, s'', rounds, (Prog.loop_inl step).symm.trans run⟩
  · rintro ⟨a, s'', rounds, run⟩
    exact ⟨a, s'', rounds + 1, (Prog.loop_inl step).trans run⟩

theorem ends_loop_inr {b : β} {s s' : σ} {a : α} (step : body b s = some (.inr a, s')) :
    Ends (fun rounds => Prog.loop body rounds b) s := ⟨a, s', 1, Prog.loop_inr step⟩

end Loops

section Fusion

variable (inner : β → Prog σ (β ⊕ ρ)) (k : ρ → β ⊕ α)

/-- A round of an outer loop, which is a loop itself. -/
def nestedRound (rounds : Nat) (b : β) : Prog σ (β ⊕ α) := do
  let result ← Prog.loop inner rounds b
  pure (k result)

/-- The round of the one loop that makes the rounds of both. -/
def flatRound (b : β) : Prog σ (β ⊕ α) := do
  match ← inner b with
  | .inl b' => pure (.inl b')
  | .inr result => pure (k result)

variable {inner k} {b b' : β} {s s' s'' : σ} {a : α}

theorem flatRound_inl (step : inner b s = some (.inl b', s')) :
    flatRound inner k b s = some (.inl b', s') := Prog.bind_eq_of_run step

theorem flatRound_inr {result : ρ} (step : inner b s = some (.inr result, s')) :
    flatRound inner k b s = some (k result, s') := Prog.bind_eq_of_run step

/-- A loop all of whose results are final. -/
theorem flatRound_final : flatRound inner (Sum.inr : ρ → β ⊕ ρ) = inner := by
  funext b s
  rw [flatRound, Prog.bind_run]
  cases inner b s with
  | none => rfl
  | some result =>
      obtain ⟨step, s'⟩ := result
      cases step <;> rfl

/-- The rounds of one round of the outer loop. -/
theorem flat_of_inner {rounds : Nat} {result : ρ}
    (run : Prog.loop inner rounds b s = some (result, s'))
    (rest : match k result with
      | .inl b' => Returns (fun rounds => Prog.loop (flatRound inner k) rounds b') s' a s''
      | .inr a' => a' = a ∧ s' = s'') :
    Returns (fun rounds => Prog.loop (flatRound inner k) rounds b) s a s'' := by
  induction rounds generalizing b s with
  | zero => simp [Prog.loop] at run
  | succ rounds ih =>
      obtain ⟨step, s₁, round, run⟩ := Prog.bind_eq_some run
      cases step with
      | inl b₁ =>
          obtain ⟨rounds', run'⟩ := ih run
          exact ⟨rounds' + 1, (Prog.loop_inl (flatRound_inl round)).trans run'⟩
      | inr result' =>
          obtain ⟨rfl, rfl⟩ := Prod.mk.inj (Option.some.inj run)
          have flat := flatRound_inr (k := k) round
          cases next : k result' with
          | inl b' =>
              rw [next] at flat rest
              obtain ⟨rounds', run'⟩ := rest
              exact ⟨rounds' + 1, (Prog.loop_inl flat).trans run'⟩
          | inr a' =>
              rw [next] at flat rest
              obtain ⟨rfl, rfl⟩ := rest
              exact ⟨1, Prog.loop_inr flat⟩

theorem flat_of_nested {rounds outer : Nat}
    (run : Prog.loop (nestedRound inner k rounds) outer b s = some (a, s'')) :
    Returns (fun rounds => Prog.loop (flatRound inner k) rounds b) s a s'' := by
  induction outer generalizing b s with
  | zero => simp [Prog.loop] at run
  | succ outer ih =>
      obtain ⟨step, s₁, round, run⟩ := Prog.bind_eq_some run
      obtain ⟨result, s₂, first, same⟩ := Prog.bind_eq_some round
      obtain ⟨rfl, rfl⟩ := Prod.mk.inj (Option.some.inj same)
      refine flat_of_inner first ?_
      cases next : k result with
      | inl b' =>
          rw [next] at run
          exact ih run
      | inr a' =>
          rw [next] at run
          exact Prod.mk.inj (Option.some.inj run)

theorem nestedRound_fueled (b : β) : Fueled fun rounds => nestedRound inner k rounds b :=
  Fueled.bind (Fueled.loop (fun b => Fueled.const (inner b)) b) fun _ => Fueled.const _

theorem nested_of_flat {rounds : Nat}
    (run : Prog.loop (flatRound inner k) rounds b s = some (a, s'')) :
    Returns (fun rounds => Prog.loop (nestedRound inner k rounds) rounds b) s a s'' := by
  induction rounds generalizing b s with
  | zero => simp [Prog.loop] at run
  | succ rounds ih =>
      obtain ⟨step, s₁, flat, run⟩ := Prog.bind_eq_some run
      obtain ⟨first, s₂, round, flat⟩ := Prog.bind_eq_some flat
      cases first with
      | inl b₁ =>
          obtain ⟨rfl, rfl⟩ := Prod.mk.inj (Option.some.inj flat)
          obtain ⟨enough, outer⟩ := ih run
          -- one round more of the inner loop before the rounds that are known
          cases enough with
          | zero => simp [Prog.loop] at outer
          | succ enough =>
              obtain ⟨step, s₃, nested, outer⟩ := Prog.bind_eq_some outer
              obtain ⟨result, s₄, inside, same⟩ := Prog.bind_eq_some nested
              obtain ⟨rfl, rfl⟩ := Prod.mk.inj (Option.some.inj same)
              have more : nestedRound inner k (enough + 2) b s = some (k result, s₄) := by
                rw [nestedRound, Prog.bind_eq_of_run ((Prog.loop_inl round).trans inside)]
                rfl
              refine ⟨enough + 2, ?_⟩
              cases next : k result with
              | inl b' =>
                  rw [next] at more outer
                  refine (Prog.loop_inl more).trans (Extends.loop ?_ (by omega) b' _ _ outer)
                  exact fun b => nestedRound_fueled b (by omega)
              | inr a' =>
                  rw [next] at more outer
                  exact (Prog.loop_inr more).trans outer
      | inr result =>
          obtain ⟨rfl, rfl⟩ := Prod.mk.inj (Option.some.inj flat)
          have nested (enough : Nat) :
              nestedRound inner k (enough + 1) b s = some (k result, s₂) := by
            rw [nestedRound, Prog.bind_eq_of_run (Prog.loop_inr round)]
            rfl
          cases next : k result with
          | inl b' =>
              rw [next] at nested run
              obtain ⟨enough, outer⟩ := ih run
              refine ⟨enough + 1, (Prog.loop_inl (nested enough)).trans ?_⟩
              refine Extends.loop ?_ (Nat.le_refl _) b' _ _ outer
              exact fun b => nestedRound_fueled b (by omega)
          | inr a' =>
              rw [next] at nested run
              exact ⟨1, (Prog.loop_inr (nested 0)).trans run⟩

/-- A loop within a loop returns what the one loop returns. -/
theorem returns_nested_iff :
    Returns (fun rounds => Prog.loop (nestedRound inner k rounds) rounds b) s a s'' ↔
      Returns (fun rounds => Prog.loop (flatRound inner k) rounds b) s a s'' :=
  ⟨fun ⟨_, run⟩ => flat_of_nested run, fun ⟨_, run⟩ => nested_of_flat run⟩

theorem ends_nested_iff :
    Ends (fun rounds => Prog.loop (nestedRound inner k rounds) rounds b) s ↔
      Ends (fun rounds => Prog.loop (flatRound inner k) rounds b) s := by
  simp only [Ends, returns_nested_iff]

end Fusion

end Ncd15.Library
