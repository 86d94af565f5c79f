import Ncd15.Library.Prog

/-!
# Cursors

A cursor is called again and again.  When one call delivers the first of the values that
are left, or reports the end when none is, any number of calls delivers the values in
order, each once, and then reports the end for ever.
-/

namespace Ncd15.Library

variable {σ ι ρ ω : Type}

/-- So many calls of a cursor, each from where the one before has left it. -/
def calls (next : ι → Prog σ (ρ × ι)) : Nat → ι → Prog σ (List (ρ × ι))
  | 0, _ => pure []
  | n + 1, it => do
      let result ← next it
      let rest ← calls next n result.2
      pure (result :: rest)

/-- What so many calls report when these values are left. -/
def drained (ended : ω) (values : List ω) (n : Nat) : List ω :=
  (values ++ List.replicate n ended).take n

@[simp] theorem drained_zero (ended : ω) (values : List ω) : drained ended values 0 = [] := rfl

theorem drained_nil (ended : ω) (n : Nat) : drained ended [] n = List.replicate n ended := by
  simp [drained]

theorem drained_cons (ended value : ω) (values : List ω) (n : Nat) :
    drained ended (value :: values) (n + 1) = value :: drained ended values n := by
  rw [drained, drained, List.cons_append, List.take_succ_cons, List.replicate_succ',
    ← List.append_assoc, List.take_append_of_le_length]
  simp

/-- While values are left a call delivers the first of them, and then it reports the end. -/
structure Drains (next : ι → Prog σ (ρ × ι)) (view : ρ × ι → ω) (ended : ω)
    (Left : List ω → ι → σ → Prop) : Prop where
  more : ∀ {value values it s}, Left (value :: values) it s →
    ∃ result s', next it s = some (result, s') ∧ view result = value ∧ Left values result.2 s'
  done : ∀ {it s}, Left [] it s →
    ∃ result s', next it s = some (result, s') ∧ view result = ended ∧ Left [] result.2 s'

theorem Drains.calls {next : ι → Prog σ (ρ × ι)} {view : ρ × ι → ω} {ended : ω}
    {Left : List ω → ι → σ → Prop} (drains : Drains next view ended Left) {values : List ω}
    {it : ι} {s : σ} (left : Left values it s) (n : Nat) :
    ∃ results s', calls next n it s = some (results, s') ∧
      results.map view = drained ended values n := by
  induction n generalizing values it s with
  | zero => exact ⟨[], s, rfl, rfl⟩
  | succ n ih =>
      cases values with
      | nil =>
          obtain ⟨result, s₁, run, seen, left₁⟩ := drains.done left
          obtain ⟨results, s', rest, same⟩ := ih left₁
          refine ⟨result :: results, s', ?_, ?_⟩
          · rw [Library.calls, Prog.bind_eq_of_run run, Prog.bind_eq_of_run rest]
            rfl
          · rw [List.map_cons, seen, same, drained_nil, drained_nil, List.replicate_succ]
      | cons value values =>
          obtain ⟨result, s₁, run, seen, left₁⟩ := drains.more left
          obtain ⟨results, s', rest, same⟩ := ih left₁
          refine ⟨result :: results, s', ?_, ?_⟩
          · rw [Library.calls, Prog.bind_eq_of_run run, Prog.bind_eq_of_run rest]
            rfl
          · rw [List.map_cons, seen, same, drained_cons]

section Sifting

variable {next : ι → Prog σ (ρ × ι)} {wanted : ρ × ι → Bool} {view : ρ × ι → ω} {ended : ω}
  {Left : List ω → ι → σ → Prop} {keep : ω → Bool}

/-- One round of a loop that calls a cursor until the result is wanted. -/
def siftRound (next : ι → Prog σ (ρ × ι)) (wanted : ρ × ι → Bool) (it : ι) :
    Prog σ (ι ⊕ (ρ × ι)) := do
  let result ← next it
  pure (if wanted result then .inr result else .inl result.2)

/-- The cursor that passes over what is not wanted. -/
def sift (next : ι → Prog σ (ρ × ι)) (wanted : ρ × ι → Bool) (rounds : Nat) :
    ι → Prog σ (ρ × ι) :=
  Prog.loop (siftRound next wanted) rounds

theorem siftRound_run {it : ι} {s s' : σ} {result : ρ × ι}
    (run : next it s = some (result, s')) :
    siftRound next wanted it s =
      some (if wanted result then .inr result else .inl result.2, s') := by
  rw [siftRound, Prog.bind_eq_of_run run]
  rfl

theorem Drains.sift_run (drains : Drains next view ended Left)
    (same : ∀ result, wanted result = keep (view result)) (ends : keep ended = true)
    {all : List ω} {rounds : Nat} {it : ι} {s : σ} (left : Left all it s)
    (enough : all.length < rounds) :
    ∃ result s', sift next wanted rounds it s = some (result, s') ∧
      ((all.filter keep = [] ∧ view result = ended ∧ Left [] result.2 s') ∨
        ∃ rest, all.filter keep = view result :: rest.filter keep ∧ Left rest result.2 s' ∧
          rest.length ≤ all.length) := by
  induction all generalizing rounds it s with
  | nil =>
      obtain ⟨rounds, rfl⟩ : ∃ more, rounds = more + 1 := ⟨rounds - 1, by simp at enough; omega⟩
      obtain ⟨result, s', run, seen, left'⟩ := drains.done left
      refine ⟨result, s', Prog.loop_inr ?_, .inl ⟨rfl, seen, left'⟩⟩
      rw [siftRound_run run, if_pos (by rw [same, seen, ends])]
  | cons value rest ih =>
      obtain ⟨rounds, rfl⟩ : ∃ more, rounds = more + 1 := ⟨rounds - 1, by simp at enough; omega⟩
      obtain ⟨result, s₁, run, rfl, left'⟩ := drains.more left
      by_cases kept : keep (view result) = true
      · refine ⟨result, s₁, Prog.loop_inr ?_, .inr ⟨rest, ?_, left', by simp⟩⟩
        · rw [siftRound_run run, if_pos (by rw [same, kept])]
        · rw [List.filter_cons_of_pos kept]
      · obtain ⟨result', s', run', found⟩ := ih left' (by simpa using enough)
        refine ⟨result', s', (Prog.loop_inl ?_).trans run', ?_⟩
        · rw [siftRound_run run, if_neg (by rw [same]; exact kept)]
        · rw [List.filter_cons_of_neg kept]
          exact found.imp id fun ⟨rest', split, left, le⟩ => ⟨rest', split, left, by simp; omega⟩

/-- A cursor that passes over what is not wanted drains what is. -/
theorem Drains.sift (drains : Drains next view ended Left)
    (same : ∀ result, wanted result = keep (view result)) (ends : keep ended = true)
    (rounds : Nat) :
    Drains (sift next wanted rounds) view ended fun values it s =>
      ∃ all, Left all it s ∧ all.length < rounds ∧ all.filter keep = values where
  more := by
    rintro value values it s ⟨all, left, enough, split⟩
    obtain ⟨result, s', run, ⟨none, -, -⟩ | ⟨rest, found, left', le⟩⟩ :=
      drains.sift_run same ends left enough
    · rw [none] at split
      cases split
    · obtain ⟨seen, others⟩ := List.cons.inj (found.symm.trans split)
      exact ⟨result, s', run, seen, rest, left', Nat.lt_of_le_of_lt le enough, others⟩
  done := by
    rintro it s ⟨all, left, enough, split⟩
    obtain ⟨result, s', run, ⟨none, seen, left'⟩ | ⟨rest, found, -, -⟩⟩ :=
      drains.sift_run same ends left enough
    · exact ⟨result, s', run, seen, [], left', Nat.lt_of_le_of_lt (Nat.zero_le _) enough, rfl⟩
    · rw [split] at found
      cases found

end Sifting

end Ncd15.Library
