import Ncd15.Fat.Enumeration
import Ncd15.Fat.FreeChain
import Ncd15.Library.Fuel

/-!
# When walks through directories end

The loops over a directory go from sector to sector as `fat_next_clus` leads and stop at a
slot that was never used, at a suitable entry, or where the chain ends.  Nothing else bounds
them: they return exactly when the sectors do not go on for ever without one of these.
-/

namespace Ncd15.Fat

open Ncd15.Library

section Sectors

/-- A slot that a walk passes over leaves this of a long name; a slot that was never used
and an accepted entry end the walk. -/
def passSlot (accept : Found → Bool) (s : Sector) (lfn : LfnBuf) (e : Nat) : Option LfnBuf :=
  if s.get (e * 32) = 0x00 then none
  else if s.get (e * 32) = 0xE5 then some LfnBuf.clear
  else if s.get (e * 32 + 11) = attrLfn then some (lfn.collect s (e * 32))
  else if hasAttr (s.get (e * 32 + 11)) attrVolid then some { lfn with len := 0 }
  else if accept { de := Dirent.ofSector s (e * 32), lfn := lfn.string } then none
  else some LfnBuf.clear

/-- The slots of a sector from the iterator's on. -/
def DirIter.slots (it : DirIter) : List Nat := List.range' it.entIdx (16 - it.entIdx)

/-- The walk passes over all slots of so many sectors and goes on behind each of them. -/
def Passes (accept : Found → Bool) : Nat → DirIter → Driver → Prop
  | 0, _, _ => True
  | n + 1, it, d =>
      it.curLba ≠ 0 ∧ ∃ loaded lfn it' d', dirLoadSector it d = some (some loaded, d) ∧
        it.slots.foldlM (passSlot accept loaded.buf) it.lfn = some lfn ∧
        dirAdvance { loaded with lfn } d = some (.inl it', d') ∧ Passes accept n it' d'

/-- The sectors of the walk never end, and all their slots are passed over. -/
def Endless (accept : Found → Bool) (it : DirIter) (d : Driver) : Prop :=
  ∀ n, Passes accept n it d

variable {d d' : Driver} {it it' loaded : DirIter} {accept : Found → Bool}

theorem DirIter.slots_cons (more : it.entIdx < 16) :
    it.slots = it.entIdx :: { it with entIdx := it.entIdx + 1 }.slots := by
  obtain ⟨count, same⟩ : ∃ count, 16 - it.entIdx = count + 1 := ⟨15 - it.entIdx, by omega⟩
  have rest : 16 - (it.entIdx + 1) = count := by omega
  rw [DirIter.slots, DirIter.slots, same, List.range'_succ]
  dsimp only
  rw [rest]

theorem DirIter.slots_nil (done : 16 ≤ it.entIdx) : it.slots = [] := by
  rw [DirIter.slots, Nat.sub_eq_zero_of_le done]
  rfl

/-- What a load of the iterator's sector leaves. -/
structure Loads (it loaded : DirIter) (d : Driver) : Prop where
  run : dirLoadSector it d = some (some loaded, d)
  clus : loaded.curClus = it.curClus
  lba : loaded.curLba = it.curLba
  idx : loaded.entIdx = it.entIdx
  lfn : loaded.lfn = it.lfn
  held : loaded.bufLbaValid = true ∧ loaded.bufLba = loaded.curLba

theorem dirLoadSector_cases (it : DirIter) (d : Driver) :
    (∃ loaded, Loads it loaded d) ∨ dirLoadSector it d = some (none, d) := by
  by_cases hit : it.bufLbaValid = true ∧ it.bufLba = it.curLba
  · exact Or.inl ⟨it, if_pos hit, rfl, rfl, rfl, rfl, hit⟩
  by_cases has : d.blk.Has it.curLba
  · have run : dirLoadSector it d = some (some
        { it with buf := d.disk it.curLba, bufLba := it.curLba, bufLbaValid := true }, d) := by
      rw [dirLoadSector, if_neg hit, if_pos has]
    exact Or.inl ⟨_, run, rfl, rfl, rfl, rfl, rfl, rfl⟩
  · right
    rw [dirLoadSector, if_neg hit, if_neg has]

theorem Loads.of_run (run : dirLoadSector it d = some (some loaded, d)) : Loads it loaded d := by
  rcases dirLoadSector_cases it d with ⟨loaded', loads⟩ | failed
  · obtain ⟨same, -⟩ := Prod.mk.inj (Option.some.inj (loads.run.symm.trans run))
    rwa [← Option.some.inj same]
  · rw [failed] at run
    simp at run

/-- The sector stays in the iterator's buffer. -/
theorem Loads.again (loads : Loads it loaded d) (idx : Nat) (lfn : LfnBuf) :
    Loads { loaded with entIdx := idx, lfn } { loaded with entIdx := idx, lfn } d :=
  ⟨if_pos loads.held, rfl, rfl, rfl, rfl, loads.held⟩

/-- The step to the next sector does not look at the index. -/
theorem dirAdvance_anyIndex (it : DirIter) (idx : Nat) (d : Driver) {it' : DirIter} :
    dirAdvance { it with entIdx := idx } d = some (.inl it', d') ↔
      dirAdvance it d = some (.inl it', d') := by
  obtain ⟨nxt, d₁, run⟩ := fatNextClus_total it.curClus d
  rw [dirAdvance, dirAdvance, Prog.bind_eq_of_run (mount_run d), Prog.bind_eq_of_run (mount_run d)]
  dsimp only
  split
  · split <;> simp [Prog.pure_run, DirIter.atSector]
  split
  · simp [Prog.pure_run, DirIter.atSector]
  rw [Prog.bind_eq_of_run run, Prog.bind_eq_of_run run]
  split <;> simp [Prog.pure_run, DirIter.atSector]

theorem dirAdvance_inr {result : DirResult × DirIter}
    (run : dirAdvance it d = some (.inr result, d')) : ∃ code it', result = (.error code, it') := by
  obtain ⟨nxt, d₁, next⟩ := fatNextClus_total it.curClus d
  rw [dirAdvance, Prog.bind_eq_of_run (mount_run d)] at run
  split at run
  · split at run
    · exact ⟨1, it, (Sum.inr.inj (congrArg Prod.fst (Option.some.inj run))).symm⟩
    · simp [Prog.pure_run] at run
  split at run
  · simp [Prog.pure_run] at run
  rw [Prog.bind_eq_of_run next] at run
  split at run
  · exact ⟨1, it, (Sum.inr.inj (congrArg Prod.fst (Option.some.inj run))).symm⟩
  · simp [Prog.pure_run] at run

theorem dirAdvance_total (it : DirIter) : Total (dirAdvance it) := by
  refine .bind mount_total fun m => .ite (.ite (.pure _) (.pure _)) (.ite (.pure _) ?_)
  exact .bind (fatNextClus_total _) fun nxt => .ite (.pure _) (.pure _)

end Sectors

section Loops

variable {α : Type} {accept : Found → Bool} {k : DirResult × DirIter → DirIter ⊕ α}
  {d d' : Driver} {it it' loaded : DirIter}

/-- What is done with a result of `fat_dirnext` in a loop that looks for an entry. -/
structure Stops (accept : Found → Bool) (k : DirResult × DirIter → DirIter ⊕ α) : Prop where
  error : ∀ code it, ∃ a, k (.error code, it) = .inr a
  accepted : ∀ found it, accept found = true → ∃ a, k (.ok found, it) = .inr a
  other : ∀ found it, accept found = false →
    k (.ok found, it) = .inl { it with lfn := LfnBuf.clear }

theorem dirRound_loaded (positive : it.curLba ≠ 0) (loads : Loads it loaded d) :
    dirRound it d = if 16 ≤ it.entIdx then dirAdvance loaded d else some (loaded.entry, d) := by
  rw [dirRound, if_neg positive, Prog.bind_eq_of_run loads.run, ← loads.idx]
  dsimp only
  split <;> rfl

/-- A sector that is not there ends the loop. -/
theorem flatRound_unreadable (stops : Stops accept k)
    (missing : it.curLba = 0 ∨ dirLoadSector it d = some (none, d)) :
    ∃ a, flatRound dirRound k it d = some (.inr a, d) := by
  obtain ⟨a, same⟩ := stops.error (-1) it
  refine ⟨a, ?_⟩
  rw [← same]
  refine flatRound_inr ?_
  unfold dirRound
  by_cases zero : it.curLba = 0
  · rw [if_pos zero]
    rfl
  · rw [if_neg zero, Prog.bind_eq_of_run (missing.resolve_left zero)]
    rfl

/-- A slot is passed over, or it ends the loop. -/
theorem flatRound_slot (stops : Stops accept k) (positive : it.curLba ≠ 0)
    (loads : Loads it loaded d) (more : it.entIdx < 16) :
    match passSlot accept loaded.buf it.lfn it.entIdx with
    | none => ∃ a, flatRound dirRound k it d = some (.inr a, d)
    | some lfn => flatRound dirRound k it d =
        some (.inl { loaded with entIdx := it.entIdx + 1, lfn }, d) := by
  have round : dirRound it d = some (loaded.entry, d) := by
    rw [dirRound_loaded positive loads, if_neg (Nat.not_le.mpr more)]
  unfold DirIter.entry at round
  rw [loads.idx, loads.lfn] at round
  dsimp only at round
  by_cases unused : loaded.buf.get (it.entIdx * 32) = 0x00
  · rw [if_pos unused] at round
    obtain ⟨a, same⟩ := stops.error 1 loaded
    rw [passSlot, if_pos unused]
    exact ⟨a, by rw [← same]; exact flatRound_inr round⟩
  by_cases deleted : loaded.buf.get (it.entIdx * 32) = 0xE5
  · rw [if_neg unused, if_pos deleted] at round
    rw [passSlot, if_neg unused, if_pos deleted]
    exact flatRound_inl round
  by_cases isLfn : loaded.buf.get (it.entIdx * 32 + 11) = attrLfn
  · rw [if_neg unused, if_neg deleted, if_pos isLfn] at round
    rw [passSlot, if_neg unused, if_neg deleted, if_pos isLfn]
    exact flatRound_inl round
  by_cases label : hasAttr (loaded.buf.get (it.entIdx * 32 + 11)) attrVolid = true
  · rw [if_neg unused, if_neg deleted, if_neg isLfn, if_pos label] at round
    rw [passSlot, if_neg unused, if_neg deleted, if_neg isLfn, if_pos label]
    exact flatRound_inl round
  rw [if_neg unused, if_neg deleted, if_neg isLfn, if_neg label] at round
  rw [passSlot, if_neg unused, if_neg deleted, if_neg isLfn, if_neg label]
  have flat := flatRound_inr (k := k) round
  by_cases wanted : accept
      { de := Dirent.ofSector loaded.buf (it.entIdx * 32), lfn := it.lfn.string } = true
  · obtain ⟨a, same⟩ := stops.accepted _
      { loaded with entIdx := it.entIdx + 1, lfn := LfnBuf.clear } wanted
    rw [same] at flat
    rw [if_pos wanted]
    exact ⟨a, flat⟩
  · rw [stops.other _ _ (by simpa using wanted)] at flat
    rw [if_neg wanted]
    exact flat

/-- While the loop has not ended, the slots that are left of a sector are passed over, and the
walk goes on behind it. -/
theorem passes_sector (stops : Stops accept k)
    (goesOn : ¬ Ends (fun rounds => Prog.loop (flatRound dirRound k) rounds it) d) :
    it.curLba ≠ 0 ∧ ∃ loaded lfn it' d', dirLoadSector it d = some (some loaded, d) ∧
      it.slots.foldlM (passSlot accept loaded.buf) it.lfn = some lfn ∧
      dirAdvance { loaded with lfn } d = some (.inl it', d') ∧
      ¬ Ends (fun rounds => Prog.loop (flatRound dirRound k) rounds it') d' := by
  have positive : it.curLba ≠ 0 := by
    intro zero
    obtain ⟨a, stop⟩ := flatRound_unreadable stops (Or.inl zero)
    exact goesOn (ends_loop_inr stop)
  refine ⟨positive, ?_⟩
  obtain ⟨loaded, loads⟩ : ∃ loaded, Loads it loaded d := by
    refine (dirLoadSector_cases it d).resolve_right fun failed => ?_
    obtain ⟨a, stop⟩ := flatRound_unreadable stops (Or.inr failed)
    exact goesOn (ends_loop_inr stop)
  induction left : 16 - it.entIdx generalizing it loaded with
  | zero =>
      have last : 16 ≤ it.entIdx := Nat.le_of_sub_eq_zero left
      obtain ⟨step, d₁, advance⟩ := dirAdvance_total loaded d
      have round : dirRound it d = some (step, d₁) := by
        rw [dirRound_loaded positive loads, if_pos last, advance]
      have same : { loaded with lfn := it.lfn } = loaded := by rw [← loads.lfn]
      cases step with
      | inl it' =>
          refine ⟨loaded, it.lfn, it', d₁, loads.run, ?_, ?_, ?_⟩
          · rw [DirIter.slots_nil last]
            rfl
          · rw [same, advance]
          · rwa [ends_loop_inl (flatRound_inl round)] at goesOn
      | inr result =>
          obtain ⟨code, it', rfl⟩ := dirAdvance_inr advance
          obtain ⟨a, stop⟩ := stops.error code it'
          have flat := flatRound_inr (k := k) round
          rw [stop] at flat
          exact absurd (ends_loop_inr flat) goesOn
  | succ left ih =>
      have more : it.entIdx < 16 := by omega
      have slot := flatRound_slot stops positive loads more
      cases pass : passSlot accept loaded.buf it.lfn it.entIdx with
      | none =>
          rw [pass] at slot
          obtain ⟨a, stop⟩ := slot
          exact absurd (ends_loop_inr stop) goesOn
      | some lfn₁ =>
          rw [pass] at slot
          rw [ends_loop_inl slot] at goesOn
          have loads₁ := loads.again (it.entIdx + 1) lfn₁
          obtain ⟨loaded', lfn, it', d', load, passed, advance, rest⟩ :=
            ih goesOn (by rwa [loads.lba]) _ loads₁ (by dsimp only; omega)
          obtain ⟨same, -⟩ := Prod.mk.inj (Option.some.inj (load.symm.trans loads₁.run))
          obtain rfl := Option.some.inj same
          refine ⟨loaded, lfn, it', d', loads.run, ?_, ?_, rest⟩
          · rw [DirIter.slots_cons more, List.foldlM_cons, pass]
            exact passed
          · exact (dirAdvance_anyIndex { loaded with lfn } (it.entIdx + 1) d).mp advance

theorem endless_of_not_ends (stops : Stops accept k)
    (goesOn : ¬ Ends (fun rounds => Prog.loop (flatRound dirRound k) rounds it) d) :
    Endless accept it d := by
  intro n
  induction n generalizing it d with
  | zero => trivial
  | succ n ih =>
      obtain ⟨positive, loaded, lfn, it', d', load, passed, advance, rest⟩ :=
        passes_sector stops goesOn
      exact ⟨positive, loaded, lfn, it', d', load, passed, advance, ih rest⟩

/-- On a walk without end each round leads to another one. -/
theorem Endless.round (stops : Stops accept k) (endless : Endless accept it d) :
    ∃ it' d', flatRound dirRound k it d = some (.inl it', d') ∧ Endless accept it' d' := by
  obtain ⟨positive, loaded, lfn, it', d', load, passed, advance, -⟩ := endless 1
  have loads := Loads.of_run load
  have tails (n : Nat) : Passes accept n it' d' := by
    obtain ⟨-, loaded₂, lfn₂, it₂, d₂, load₂, passed₂, advance₂, tail⟩ := endless (n + 1)
    obtain ⟨same, -⟩ := Prod.mk.inj (Option.some.inj (load.symm.trans load₂))
    obtain rfl := Option.some.inj same
    obtain rfl := Option.some.inj (passed.symm.trans passed₂)
    obtain ⟨same, rfl⟩ := Prod.mk.inj (Option.some.inj (advance.symm.trans advance₂))
    obtain rfl := Sum.inl.inj same
    exact tail
  by_cases more : it.entIdx < 16
  · have slot := flatRound_slot stops positive loads more
    rw [DirIter.slots_cons more, List.foldlM_cons] at passed
    obtain ⟨lfn₁, pass, passed⟩ := Option.bind_eq_some_iff.mp passed
    rw [pass] at slot
    refine ⟨_, d, slot, fun n => ?_⟩
    cases n with
    | zero => trivial
    | succ n =>
        refine ⟨by rwa [loads.lba], _, lfn, it', d', (loads.again _ _).run, passed, ?_, tails n⟩
        exact (dirAdvance_anyIndex { loaded with lfn } (it.entIdx + 1) d).mpr advance
  · have last : 16 ≤ it.entIdx := Nat.not_lt.mp more
    rw [DirIter.slots_nil last] at passed
    obtain rfl : it.lfn = lfn := Option.some.inj passed
    have same : { loaded with lfn := it.lfn } = loaded := by rw [← loads.lfn]
    rw [same] at advance
    have round : dirRound it d = some (.inl it', d') := by
      rw [dirRound_loaded positive loads, if_pos last, advance]
    exact ⟨it', d', flatRound_inl round, tails⟩

/-- The loop returns exactly when the walk is not endless. -/
theorem ends_flat_iff (stops : Stops accept k) :
    Ends (fun rounds => Prog.loop (flatRound dirRound k) rounds it) d ↔
      ¬ Endless accept it d := by
  constructor
  · intro ends endless
    exact not_ends_loop (I := Endless accept) (fun it d endless => endless.round stops) endless ends
  · intro ending
    by_contra goesOn
    exact ending (endless_of_not_ends stops goesOn)

end Loops

section Searches

variable {d d' : Driver} {it : DirIter} {accept : Found → Bool}

/-- An iterator at the start of a call of `fat_dirnext`. -/
def DirIter.cleared (it : DirIter) : DirIter := { it with lfn := LfnBuf.clear }

theorem fatDirnext_fueled (it : DirIter) : Fueled fun rounds => fatDirnext rounds it :=
  Fueled.bind (Fueled.const mount) fun _ =>
    Fueled.ite (Fueled.const _) (Fueled.loop (fun it => Fueled.const (dirRound it)) _)

theorem searchDir_fueled (accept : Found → Bool) (it : DirIter) :
    Fueled fun rounds => searchDir rounds accept it := by
  refine Fueled.loop (fun it => ?_) it
  unfold searchRound
  exact Fueled.bind (fatDirnext_fueled it) fun _ => Fueled.const _

theorem fatDirnext_loop (valid : d.m.valid = true) (rounds : Nat) (it : DirIter) :
    fatDirnext rounds it d = Prog.loop dirRound rounds it.cleared d := by
  rw [fatDirnext, Prog.bind_eq_of_run (mount_run d), if_neg (by simp [valid])]
  rfl

/-- `fat_dirnext` returns exactly when its walk is not endless. -/
theorem fatDirnext_ends_iff (valid : d.m.valid = true) :
    Ends (fun rounds => fatDirnext rounds it) d ↔
      ¬ Endless (fun _ => true) it.cleared d := by
  have stops : Stops (fun _ => true) (Sum.inr : DirResult × DirIter → DirIter ⊕ _) :=
    ⟨fun _ _ => ⟨_, rfl⟩, fun _ _ _ => ⟨_, rfl⟩, nofun⟩
  have loops : _ ↔ ¬ Endless (fun _ => true) it.cleared d := ends_flat_iff stops
  rw [flatRound_final] at loops
  rw [← loops]
  simp only [Ends, Returns, fatDirnext_loop valid]

/-- What a search does with a result of `fat_dirnext`. -/
def searchStep (accept : Found → Bool) :
    DirResult × DirIter → DirIter ⊕ (Option Found × DirIter)
  | (.error _, it) => .inr (none, it)
  | (.ok found, it) => if accept found then .inr (some found, it) else .inl it.cleared

theorem searchStep_stops (accept : Found → Bool) : Stops accept (searchStep accept) where
  error := fun _ it => ⟨(none, it), rfl⟩
  accepted := fun found it wanted => ⟨(some found, it), if_pos wanted⟩
  other := fun found it refused => if_neg (by simp [refused])

/-- The loop of a search is a loop in a loop. -/
theorem searchLoop_eq (rounds outer : Nat) (valid : d.m.valid = true) :
    Prog.loop (searchRound rounds accept) outer it d =
      Prog.loop (nestedRound dirRound (searchStep accept) rounds) outer it.cleared d := by
  induction outer generalizing it d with
  | zero => rfl
  | succ outer ih =>
      rw [Prog.loop, Prog.loop, searchRound, nestedRound, Prog.bind_run, Prog.bind_run,
        Prog.bind_run, Prog.bind_run, fatDirnext_loop valid]
      cases run : Prog.loop dirRound rounds it.cleared d with
      | none => rfl
      | some result =>
          obtain ⟨⟨result, it'⟩, d'⟩ := result
          have same : d'.m = d.m :=
            fatDirnext_keeps (readFatSec_mount d.m) rounds it d rfl _ d'
              ((fatDirnext_loop valid rounds it).trans run)
          cases result with
          | error code => rfl
          | ok found =>
              have next := @ih d' it' (by rwa [same])
              by_cases wanted : accept found = true
              · simp [searchStep, wanted, Prog.pure_run]
              · simp [searchStep, wanted, Prog.pure_run, next]

/-- A search returns exactly when its walk is not endless. -/
theorem searchDir_ends_iff (valid : d.m.valid = true) :
    Ends (fun rounds => searchDir rounds accept it) d ↔ ¬ Endless accept it.cleared d := by
  rw [← ends_flat_iff (searchStep_stops accept), ← ends_nested_iff]
  simp only [Ends, Returns, searchDir, searchLoop_eq _ _ valid]

end Searches

section Paths

variable {d d' : Driver} {it it' : DirIter} {comps : List (List UInt8 × Bool)}

theorem searchDir_mount {accept : Found → Bool} {result : Option Found × DirIter}
    (returns : Returns (fun rounds => searchDir rounds accept it) d result d') : d'.m = d.m := by
  obtain ⟨rounds, run⟩ := returns
  exact searchDir_keeps (readFatSec_mount d.m) rounds accept it d rfl result d' run

/-- A walk along a path comes to a directory in which the search for a component is endless;
`descend` says whether the walk goes on in an entry that it has found. -/
inductive Lost (descend : Bool → Found → Bool) :
    List (List UInt8 × Bool) → DirIter → Driver → Prop
  | here {comp : List UInt8} {more : Bool} {rest : List (List UInt8 × Bool)} {it : DirIter}
      {d : Driver} (endless : Endless (·.matches comp) it.cleared d) :
      Lost descend ((comp, more) :: rest) it d
  | there {comp : List UInt8} {more : Bool} {rest : List (List UInt8 × Bool)}
      {it it' : DirIter} {d d' : Driver} {found : Found}
      (finds : Returns (fun rounds => findEntryInDir rounds it comp) d (some found, it') d')
      (descends : descend more found = true)
      (lost : Lost descend rest (d'.m.diropenClus found.de.firstClus) d') :
      Lost descend ((comp, more) :: rest) it d

/-- A search in a directory of a path, and what is done with its result. -/
theorem ends_search_iff {α : Type} {descend : Bool → Found → Bool} {comp : List UInt8}
    {more : Bool} (valid : d.m.valid = true)
    {next : Nat → Option Found × DirIter → DriverM α}
    (fueled : ∀ result, Fueled fun rounds => next rounds result)
    (stops : ∀ found it d, (∀ f, found = some f → descend more f = false) →
      Ends (fun rounds => next rounds (found, it)) d)
    (goes : ∀ found it d, d.m.valid = true → descend more found = true →
      (Ends (fun rounds => next rounds (some found, it)) d ↔
        ¬ Lost descend comps (d.m.diropenClus found.de.firstClus) d)) :
    Ends (fun rounds => findEntryInDir rounds it comp >>= next rounds) d ↔
      ¬ Lost descend ((comp, more) :: comps) it d := by
  have search := searchDir_fueled (·.matches comp) it
  refine (Fueled.ends_bind search fueled).trans ⟨?_, fun notLost => ?_⟩
  · rintro ⟨result, d', returns, ends⟩ lost
    cases lost with
    | here endless => exact (searchDir_ends_iff valid).mp returns.ends endless
    | there finds descends lost =>
        obtain ⟨rfl, rfl⟩ := search.unique returns finds
        have valid' := (searchDir_mount returns).symm ▸ valid
        exact (goes _ _ _ valid' descends).mp ends lost
  · have ending := (searchDir_ends_iff valid).mpr fun endless => notLost (.here endless)
    obtain ⟨⟨found, it'⟩, d', returns⟩ := ending
    have valid' : d'.m.valid = true := (searchDir_mount returns).symm ▸ valid
    refine ⟨(found, it'), d', returns, ?_⟩
    by_cases descends : ∃ f, found = some f ∧ descend more f = true
    · obtain ⟨f, rfl, descends⟩ := descends
      exact (goes f it' d' valid' descends).mpr fun lost => notLost (.there returns descends lost)
    · refine stops found it' d' fun f same => ?_
      by_contra descend
      exact descends ⟨f, same, by simpa using descend⟩

/-- What `fat_diropen_path` does with a component that was looked up. -/
def dirsStep (rounds : Nat) (rest : List (List UInt8 × Bool)) :
    Option Found × DirIter → DriverM (Except Int DirIter)
  | (none, _) => pure (.error (-2))
  | (some found, _) =>
      if !found.de.isDir then pure (.error (-3))
      else do walkDirs rounds rest ((← mount).diropenClus found.de.firstClus)

theorem walkDirs_cons (rounds : Nat) (comp : List UInt8 × Bool)
    (rest : List (List UInt8 × Bool)) (it : DirIter) :
    walkDirs rounds (comp :: rest) it =
      findEntryInDir rounds it comp.1 >>= dirsStep rounds rest := rfl

theorem dirsStep_fueled_of {rest : List (List UInt8 × Bool)}
    (fueled : ∀ it, Fueled fun rounds => walkDirs rounds rest it)
    (result : Option Found × DirIter) : Fueled fun rounds => dirsStep rounds rest result := by
  obtain ⟨found, it⟩ := result
  cases found with
  | none => exact Fueled.const _
  | some found =>
      exact Fueled.ite (Fueled.const _) (Fueled.bind (Fueled.const mount) fun m => fueled _)

theorem walkDirs_fueled (comps : List (List UInt8 × Bool)) (it : DirIter) :
    Fueled fun rounds => walkDirs rounds comps it := by
  induction comps generalizing it with
  | nil => exact Fueled.const _
  | cons comp rest ih =>
      simp only [walkDirs_cons]
      exact Fueled.bind (searchDir_fueled _ it) (dirsStep_fueled_of ih)

theorem dirsStep_fueled (rest : List (List UInt8 × Bool)) (result : Option Found × DirIter) :
    Fueled fun rounds => dirsStep rounds rest result :=
  dirsStep_fueled_of (walkDirs_fueled rest) result

theorem walkDirs_ends_iff (valid : d.m.valid = true) :
    Ends (fun rounds => walkDirs rounds comps it) d ↔
      ¬ Lost (fun _ found => found.de.isDir) comps it d := by
  induction comps generalizing d it with
  | nil =>
      constructor
      · intro _ lost
        cases lost
      · intro _
        exact ⟨.ok it, d, 0, rfl⟩
  | cons comp rest ih =>
      simp only [walkDirs_cons]
      refine ends_search_iff valid (dirsStep_fueled rest) (fun found it' d' stops => ?_)
        fun found it' d' valid' isDir => ?_
      · cases found with
        | none => exact ⟨.error (-2), d', 0, rfl⟩
        | some found =>
            have notDir := stops found rfl
            exact ⟨.error (-3), d', 0, by simp [dirsStep, notDir, Prog.pure_run]⟩
      · simp only [dirsStep, isDir, Bool.not_true, Bool.false_eq_true, if_false]
        rw [ends_after (mount_run d')]
        exact ih valid'

/-- What `fat_fopen` does with a component that was looked up. -/
def fileStep (rounds : Nat) (fp : FatFile) (more : Bool) (rest : List (List UInt8 × Bool)) :
    Option Found × DirIter → DriverM (Int × FatFile)
  | (none, _) => pure (-2, fp)
  | (some found, _) =>
      if more then
        if !found.de.isDir then pure (-3, fp)
        else do walkFile rounds fp rest ((← mount).diropenClus found.de.firstClus)
      else if found.de.isDir then pure (-4, fp)
      else pure (0, fp.opened found.de)

theorem walkFile_cons (rounds : Nat) (fp : FatFile) (comp : List UInt8 × Bool)
    (rest : List (List UInt8 × Bool)) (it : DirIter) :
    walkFile rounds fp (comp :: rest) it =
      findEntryInDir rounds it comp.1 >>= fileStep rounds fp comp.2 rest := rfl

theorem fileStep_fueled_of {fp : FatFile} {rest : List (List UInt8 × Bool)}
    (fueled : ∀ it, Fueled fun rounds => walkFile rounds fp rest it) (more : Bool)
    (result : Option Found × DirIter) :
    Fueled fun rounds => fileStep rounds fp more rest result := by
  obtain ⟨found, it⟩ := result
  cases found with
  | none => exact Fueled.const _
  | some found =>
      refine Fueled.ite (Fueled.ite (Fueled.const _) ?_) (Fueled.const _)
      exact Fueled.bind (Fueled.const mount) fun m => fueled _

theorem walkFile_fueled (fp : FatFile) (comps : List (List UInt8 × Bool)) (it : DirIter) :
    Fueled fun rounds => walkFile rounds fp comps it := by
  induction comps generalizing it with
  | nil => exact Fueled.const _
  | cons comp rest ih =>
      simp only [walkFile_cons]
      exact Fueled.bind (searchDir_fueled _ it) (fileStep_fueled_of ih comp.2)

theorem fileStep_fueled (fp : FatFile) (more : Bool) (rest : List (List UInt8 × Bool))
    (result : Option Found × DirIter) :
    Fueled fun rounds => fileStep rounds fp more rest result :=
  fileStep_fueled_of (walkFile_fueled fp rest) more result

theorem walkFile_ends_iff (fp : FatFile) (valid : d.m.valid = true) :
    Ends (fun rounds => walkFile rounds fp comps it) d ↔
      ¬ Lost (fun more found => more && found.de.isDir) comps it d := by
  induction comps generalizing d it with
  | nil =>
      constructor
      · intro _ lost
        cases lost
      · intro _
        exact ⟨(-2, fp), d, 0, rfl⟩
  | cons comp rest ih =>
      obtain ⟨comp, more⟩ := comp
      simp only [walkFile_cons]
      refine ends_search_iff valid (fileStep_fueled fp more rest) (fun found it' d' stops => ?_)
        fun found it' d' valid' goes => ?_
      · cases found with
        | none => exact ⟨(-2, fp), d', 0, rfl⟩
        | some found =>
            have leaf := stops found rfl
            cases more with
            | true =>
                rw [Bool.true_and] at leaf
                exact ⟨(-3, fp), d', 0, by simp [fileStep, leaf, Prog.pure_run]⟩
            | false =>
                cases isDir : found.de.isDir with
                | true => exact ⟨(-4, fp), d', 0, by simp [fileStep, isDir, Prog.pure_run]⟩
                | false =>
                    exact ⟨(0, fp.opened found.de), d', 0, by simp [fileStep, isDir, Prog.pure_run]⟩
      · obtain ⟨rfl, isDir⟩ := Bool.and_eq_true_iff.mp goes
        simp only [fileStep, isDir, Bool.not_true, Bool.false_eq_true, if_false, if_true]
        rw [ends_after (mount_run d')]
        exact ih valid'

theorem fatDiropenPath_fueled (path : List UInt8) :
    Fueled fun rounds => fatDiropenPath rounds path :=
  .bind (.const mount) fun _ => .ite (.const _) (walkDirs_fueled _ _)

theorem fatDiropenPath_ends_iff (valid : d.m.valid = true) (path : List UInt8) :
    Ends (fun rounds => fatDiropenPath rounds path) d ↔
      ¬ Lost (fun _ found => found.de.isDir) (components path) d.m.diropenRoot d := by
  rw [← walkDirs_ends_iff valid]
  have notInvalid : ¬ (!d.m.valid) = true := by simp [valid]
  simp only [Ends, Returns, fatDiropenPath, Prog.bind_eq_of_run (mount_run d), if_neg notInvalid]

theorem fatFopen_ends_iff (valid : d.m.valid = true) (path : List UInt8) (fp : FatFile) :
    Ends (fun rounds => fatFopen rounds path fp) d ↔
      ¬ Lost (fun more found => more && found.de.isDir) (components path) d.m.diropenRoot d := by
  rw [← walkFile_ends_iff fp valid]
  have notInvalid : ¬ (!d.m.valid) = true := by simp [valid]
  simp only [Ends, Returns, fatFopen, Prog.bind_eq_of_run (mount_run d), if_neg notInvalid]

end Paths

section FreeSlots

variable {m : Mount} {d d' : Driver} {c nc : Nat}

/-- So many clusters from here on, as the links lead, have no slot that is free.  Only while
writes are going to fail can the search go on behind the end of the chain, in a cluster that
was added and not zeroed. -/
def FullFor : Nat → Nat → Driver → Prop
  | 0, _, _ => True
  | n + 1, c, d =>
      2 ≤ c ∧ ∃ d₁ next d₂, scanFree (d.m.clusterLbas c) d = some (none, d₁) ∧
        fatNextClus c d₁ = some (next, d₂) ∧
        (next ≠ noClus ∧ FullFor n next d₂ ∨
          next = noClus ∧ d₂.blk.faults ≠ [] ∧
            ∃ nc d', extendDir c d₂ = some (some nc, d') ∧ FullFor n nc d')

/-- The clusters never end, and all of them are full. -/
def EndlessFull (c : Nat) (d : Driver) : Prop := ∀ n, FullFor n c d

/-- Zeros written over sectors, those of them that are on the device. -/
theorem zeroSectors_run {lbas : List Nat} (zeros : d.fatWbuf = Buffer.zero)
    (healthy : d.blk.faults = []) :
    ∃ d', ((lbas.forM fun lba => do let _ ← writeWbuf lba) : DriverM Unit) d = some ((), d') ∧
      d'.blk.capacity = d.blk.capacity ∧
      ∀ lba, d.blk.Has lba → lba ∈ lbas ∨ d.disk lba = Buffer.zero → d'.disk lba = Buffer.zero := by
  induction lbas generalizing d with
  | nil => exact ⟨d, rfl, rfl, fun lba _ zero => zero.resolve_left (by simp)⟩
  | cons first rest ih =>
      by_cases has : d.blk.Has first
      · have noFault : ¬ d.blk.Faulty := by simp [BlkDev.Faulty, healthy]
        have write : writeWbuf first d = some (true, d.stored first d.fatWbuf) := by
          rw [writeWbuf, if_neg (not_not.mpr has), if_neg noFault]
        have tail : (d.stored first d.fatWbuf).blk.faults = [] := by
          change d.blk.faults.tail = []
          rw [healthy]
          rfl
        obtain ⟨d', run, capacity, zeroed⟩ := ih (d := d.stored first d.fatWbuf) zeros tail
        refine ⟨d', ?_, capacity, fun lba inside zero => zeroed lba inside ?_⟩
        · exact (Prog.bind_eq_of_run (Prog.bind_eq_of_run write)).trans run
        · by_cases same : lba = first
          · right
            rw [same]
            exact (Function.update_self first _ _).trans zeros
          · refine zero.imp (fun mem => ?_) fun zero => ?_
            · exact (List.mem_cons.mp mem).resolve_left same
            · exact (Function.update_of_ne same _ _).trans zero
      · have write : writeWbuf first d = some (false, d) := if_pos has
        obtain ⟨d', run, capacity, zeroed⟩ := ih zeros healthy
        refine ⟨d', ?_, capacity, fun lba inside zero => zeroed lba inside ?_⟩
        · exact (Prog.bind_eq_of_run (Prog.bind_eq_of_run write)).trans run
        · refine zero.imp_left fun mem => (List.mem_cons.mp mem).resolve_left ?_
          rintro rfl
          exact has inside

theorem zeroCluster_zeroed (healthy : d.blk.faults = []) (c : Nat) :
    ∃ d', zeroCluster c d = some ((), d') ∧ d'.blk.capacity = d.blk.capacity ∧
      ∀ lba, d.blk.Has lba → lba ∈ d.m.clusterLbas c → d'.disk lba = Buffer.zero := by
  have zeros : ({ d with fatWbuf := Buffer.zero } : Driver).fatWbuf = Buffer.zero := rfl
  obtain ⟨d', run, capacity, zeroed⟩ := zeroSectors_run zeros healthy
  exact ⟨d', run, capacity, fun lba has mem => zeroed lba has (Or.inl mem)⟩

/-- The search ends in a cluster whose first sector is zeros or not there. -/
theorem emptyRound_zeroed (sectors : 0 < m.secPerClus)
    (zeroed : ∀ lba, d.blk.Has lba → lba ∈ m.clusterLbas c → d.disk lba = Buffer.zero) :
    ∃ slot d', emptyRound m c d = some (.inr slot, d') := by
  by_cases reserved : c < 2
  · exact ⟨none, d, by rw [emptyRound, if_pos reserved]; rfl⟩
  obtain ⟨first, rest, same⟩ : ∃ first rest, m.clusterLbas c = first :: rest := by
    refine List.exists_cons_of_ne_nil fun empty => ?_
    have length := congrArg List.length empty
    simp [Mount.clusterLbas] at length
    omega
  obtain ⟨buf, scan⟩ := scanFree_run (m.clusterLbas c) d
  rw [emptyRound, if_neg reserved, Prog.bind_eq_of_run scan]
  by_cases has : d.blk.Has first
  · have zero := zeroed first has (by rw [same]; exact List.mem_cons_self)
    have found : freeOffset (d.blk.sec first) = some 0 := by
      change freeOffset (d.disk first) = some 0
      rw [zero]
      decide
    rw [same, BlkDev.scanResult, if_pos has, found]
    exact ⟨_, _, rfl⟩
  · rw [same, BlkDev.scanResult, if_neg has]
    exact ⟨_, _, rfl⟩

theorem extendDir_total (c : Nat) : Total (extendDir c) := by
  refine .bind fatAllocCluster_total fun nc => .ite (.pure _) ?_
  refine .bind (fatSetEntry_total c nc) fun ok => .ite (.pure _) ?_
  refine .bind ?_ fun _ => .pure _
  refine .bind mount_total fun m => .bind (fun d => ⟨(), _, rfl⟩) fun _ => ?_
  induction m.clusterLbas nc with
  | nil => exact .pure ()
  | cons lba rest ih => exact .bind (.bind (writeWbuf_total lba) fun _ => .pure _) fun _ => ih

/-- Behind an extension of the directory the search ends. -/
theorem extendDir_zeroed (sectors : 0 < d.m.secPerClus) (healthy : d.blk.faults = [])
    (run : extendDir c d = some (some nc, d')) :
    ∃ slot d'', emptyRound d.m nc d' = some (.inr slot, d'') := by
  obtain ⟨nc', d₁, alloc, run⟩ := Prog.bind_eq_some run
  have kept₁ := (faultless_io d.m).fatAllocCluster d ⟨rfl, healthy⟩ nc' d₁ alloc
  by_cases full : nc' = 0
  · rw [if_pos full] at run
    simp [Prog.pure_run] at run
  rw [if_neg full] at run
  obtain ⟨ok, d₂, set, run⟩ := Prog.bind_eq_some run
  have kept₂ := (faultless_io d.m).fatSetEntry c nc' d₁ kept₁ ok d₂ set
  cases ok with
  | false => simp [Prog.pure_run] at run
  | true =>
      obtain ⟨done, d₃, zero, run⟩ := Prog.bind_eq_some run
      obtain ⟨same, rfl⟩ := Prod.mk.inj (Option.some.inj run)
      obtain rfl := Option.some.inj same
      obtain ⟨d₄, zeros, capacity, zeroed⟩ := zeroCluster_zeroed kept₂.2 nc'
      obtain ⟨-, rfl⟩ := Prod.mk.inj (Option.some.inj (zeros.symm.trans zero))
      rw [kept₂.1] at zeroed
      refine emptyRound_zeroed sectors fun lba has mem => zeroed lba ?_ mem
      rwa [BlkDev.Has, ← capacity]

theorem emptyRound_full {d₁ : Driver} (cluster : 2 ≤ c)
    (scan : scanFree (m.clusterLbas c) d = some (none, d₁)) :
    emptyRound m c d = (do
      let nxt ← fatNextClus c
      if nxt = noClus then
        match ← extendDir c with
        | none => pure (.inr none)
        | some nc => pure (.inl nc)
      else pure (.inl nxt) : DriverM (Nat ⊕ Option Slot)) d₁ := by
  rw [emptyRound, if_neg (Nat.not_lt.mpr cluster)]
  exact Prog.bind_eq_of_run scan

theorem extendDir_mount (c : Nat) : Triple (MountIs m) (extendDir c) fun _ => MountIs m := by
  have kept := mountIs_io m
  refine Triple.bind kept.fatAllocCluster fun nc => Triple.ite (fun _ => ?_) fun _ => ?_
  · exact Triple.pure fun _ => id
  refine Triple.bind (kept.fatSetEntry c nc) fun ok => Triple.ite (fun _ => ?_) fun _ => ?_
  · exact Triple.pure fun _ => id
  refine Triple.bind ?_ fun _ => Triple.pure fun _ => id
  refine Triple.bind (mount_keeps _) fun m' => Triple.bind (kept.edit _) fun _ => ?_
  induction m'.clusterLbas nc with
  | nil => exact Triple.pure fun _ => id
  | cons lba rest ih =>
      refine Triple.bind ?_ fun _ => ih
      exact Triple.bind (kept.write lba) fun _ => Triple.pure fun _ => id

theorem scan_mount {d₁ : Driver} {next : Nat} (here : d.m = m)
    (scan : scanFree (m.clusterLbas c) d = some (none, d₁))
    (link : fatNextClus c d₁ = some (next, d')) : d'.m = m := by
  obtain ⟨buf, same⟩ := scanFree_run (m.clusterLbas c) d
  obtain ⟨-, rfl⟩ := Prod.mk.inj (Option.some.inj (same.symm.trans scan))
  exact fatNextClus_keeps (readFatSec_mount m) c { d with fatWbuf := buf } here next d' link

theorem EndlessFull.round (here : d.m = m) (endless : EndlessFull c d) :
    ∃ c' d', emptyRound m c d = some (.inl c', d') ∧ d'.m = m ∧ EndlessFull c' d' := by
  subst here
  obtain ⟨cluster, d₁, next, d₂, scan, link, on⟩ := endless 1
  have m₂ : d₂.m = d.m := scan_mount rfl scan link
  -- The same round starts every longer walk.
  have tails (n : Nat) : next ≠ noClus ∧ FullFor n next d₂ ∨
      next = noClus ∧ ∃ nc d', extendDir c d₂ = some (some nc, d') ∧ FullFor n nc d' := by
    obtain ⟨-, d₃, next₃, d₄, scan', link', on'⟩ := endless (n + 1)
    obtain ⟨-, rfl⟩ := Prod.mk.inj (Option.some.inj (scan.symm.trans scan'))
    obtain ⟨rfl, rfl⟩ := Prod.mk.inj (Option.some.inj (link.symm.trans link'))
    exact on'.imp_right fun ended => ⟨ended.1, ended.2.2⟩
  have full := emptyRound_full cluster scan
  rw [Prog.bind_eq_of_run link] at full
  by_cases last : next = noClus
  · obtain ⟨-, nc, d', extend, -⟩ := (tails 0).resolve_left fun more => more.1 last
    rw [if_pos last, Prog.bind_eq_of_run extend] at full
    refine ⟨nc, d', full, extendDir_mount c d₂ m₂ _ d' extend, fun n => ?_⟩
    obtain ⟨-, nc', d'', extend', tail⟩ := (tails n).resolve_left fun more => more.1 last
    obtain ⟨same, rfl⟩ := Prod.mk.inj (Option.some.inj (extend.symm.trans extend'))
    obtain rfl := Option.some.inj same
    exact tail
  · rw [if_neg last] at full
    refine ⟨next, d₂, full, m₂, fun n => ?_⟩
    exact ((tails n).resolve_right fun ended => last ended.1).2

/-- While the search has not ended, it has passed a full cluster and follows its link, or an
extension that was not all written. -/
theorem fullFor_of_not_ends (sectors : 0 < m.secPerClus) (here : d.m = m)
    (goesOn : ¬ Ends (fun rounds => Prog.loop (emptyRound m) rounds c) d) : EndlessFull c d := by
  intro n
  induction n generalizing c d with
  | zero => trivial
  | succ n ih =>
      have cluster : 2 ≤ c := by
        by_contra reserved
        have stop : emptyRound m c d = some (.inr none, d) := by
          rw [emptyRound, if_pos (Nat.not_le.mp reserved)]
          rfl
        exact goesOn (ends_loop_inr stop)
      obtain ⟨buf, scan⟩ := scanFree_run (m.clusterLbas c) d
      cases found : d.blk.scanResult (m.clusterLbas c) with
      | some result =>
          rw [found] at scan
          have stop : ∃ slot d', emptyRound m c d = some (.inr slot, d') := by
            rw [emptyRound, if_neg (Nat.not_lt.mpr cluster), Prog.bind_eq_of_run scan]
            cases result <;> exact ⟨_, _, rfl⟩
          obtain ⟨slot, d', stop⟩ := stop
          exact absurd (ends_loop_inr stop) goesOn
      | none =>
          rw [found] at scan
          have full := emptyRound_full cluster scan
          obtain ⟨next, d₂, link⟩ := fatNextClus_total c { d with fatWbuf := buf }
          have m₂ := scan_mount here scan link
          rw [Prog.bind_eq_of_run link] at full
          have scan' := scan
          rw [← here] at scan'
          refine ⟨cluster, _, next, d₂, scan', link, ?_⟩
          by_cases last : next = noClus
          · obtain ⟨nc, d', extend⟩ := extendDir_total c d₂
            rw [if_pos last, Prog.bind_eq_of_run extend] at full
            cases nc with
            | none => exact absurd (ends_loop_inr full) goesOn
            | some nc =>
                rw [ends_loop_inl full] at goesOn
                refine Or.inr ⟨last, fun healthy => ?_, nc, d', extend, ?_⟩
                · obtain ⟨slot, d₃, stop⟩ := extendDir_zeroed (m₂.symm ▸ sectors) healthy extend
                  rw [m₂] at stop
                  exact goesOn (ends_loop_inr stop)
                · exact ih (extendDir_mount c d₂ m₂ _ d' extend) goesOn
          · rw [if_neg last] at full
            rw [ends_loop_inl full] at goesOn
            exact Or.inl ⟨last, ih m₂ goesOn⟩

/-- The search for a free slot in a chain returns exactly when the chain is not endless and
full: an extended chain has room. -/
theorem findEmptyInChain_ends_iff (sectors : 0 < d.m.secPerClus) :
    Ends (fun rounds => findEmptyInChain rounds c) d ↔ ¬ EndlessFull c d := by
  have loops : Ends (fun rounds => findEmptyInChain rounds c) d ↔
      Ends (fun rounds => Prog.loop (emptyRound d.m) rounds c) d := by
    simp only [Ends, Returns, findEmptyInChain, Prog.bind_eq_of_run (mount_run d)]
  rw [loops]
  constructor
  · intro ends endless
    refine not_ends_loop (I := fun c d' => d'.m = d.m ∧ EndlessFull c d') ?_ ⟨rfl, endless⟩ ends
    rintro c d' ⟨here, endless⟩
    exact endless.round here
  · intro ending
    by_contra goesOn
    exact ending (fullFor_of_not_ends sectors rfl goesOn)

/-- The first cluster in which `find_empty_dirent_at` looks, when it is not in the fixed
root directory. -/
def Mount.firstOf (m : Mount) (parent : Nat) : Option Nat :=
  if parent = 0 ∧ m.type ≠ .fat32 then none else some (if parent ≠ 0 then parent else m.rootClus)

theorem findEmptyDirentAt_ends_iff (sectors : 0 < d.m.secPerClus) (parent : Nat) :
    Ends (fun rounds => findEmptyDirentAt rounds parent) d ↔
      ¬ ∃ c, d.m.firstOf parent = some c ∧ EndlessFull c d.invalidated := by
  have same (rounds : Nat) : findEmptyDirentAt rounds parent d =
      (match d.m.firstOf parent with
        | none => findEmptyInRoot
        | some c => findEmptyInChain rounds c : DriverM (Option Slot)) d.invalidated := by
    rw [findEmptyDirentAt, Prog.bind_eq_of_run (invalidate_run d),
      Prog.bind_eq_of_run (mount_run _), Mount.firstOf]
    by_cases fixed : parent = 0 ∧ d.m.type ≠ .fat32
    · simp only [if_pos fixed]
      rfl
    · simp only [if_neg fixed]
      rfl
  simp only [Ends, Returns, same]
  cases first : d.m.firstOf parent with
  | none =>
      have total : Total findEmptyInRoot := by
        refine .bind mount_total fun m => .bind (fun d => ?_) fun found => ?_
        · obtain ⟨buf, run⟩ := scanFree_run m.rootLbas d
          exact ⟨_, _, run⟩
        · split
          · exact .pure _
          · exact .pure _
      obtain ⟨slot, d', run⟩ := total d.invalidated
      exact ⟨by simp, fun _ => ⟨slot, d', 0, run⟩⟩
  | some c =>
      refine (findEmptyInChain_ends_iff (d := d.invalidated) sectors).trans ?_
      simp

end FreeSlots

section RemovedDirectory

variable {d d' : Driver} {path : List UInt8}

/-- The test of the lookups for a raw name. -/
def Found.isRaw (raw : List UInt8) (found : Found) : Bool :=
  !hasAttr found.de.attr attrVolid && found.de.name = raw

/-- A parent directory as the lookup in it opens it. -/
def Mount.openParent (m : Mount) (parent : Nat) : DirIter :=
  if parent = 0 then m.diropenRoot else m.diropenClus parent

/-- One of the walks of `fat_rmdir` is endless: along the path to the parent, through the
parent, or through the directory itself, whose entry has been loaded by then. -/
inductive RmdirLost (path : List UInt8) (d : Driver) : Prop
  | parent {dirs : List UInt8} (split : (splitLeaf (stripSlash path)).1 = some dirs)
      (short : dirs.length < 40)
      (lost : Lost (fun _ found => found.de.isDir) (components dirs) d.m.diropenRoot d)
  | leaf {parent : Nat} {d' : Driver}
      (resolved : Returns (fun rounds => resolveParent rounds path) d (.ok parent) d')
      (endless : Endless (Found.isRaw (buildRawName (leafOf path)))
        (d'.m.openParent parent).cleared d')
  | inside {slot : Slot} {d' : Driver}
      (finds : Returns (fun rounds => rmdirLookup rounds path) d (.ok slot) d')
      (has : d'.blk.Has slot.lba)
      (isDir : hasAttr ((d'.disk slot.lba).get (slot.off + 11)) attrDir = true)
      (cluster : 2 ≤ firstClusAt (d'.disk slot.lba) slot.off)
      (endless : Endless (!·.isDot)
        (d'.m.diropenClus (firstClusAt (d'.disk slot.lba) slot.off)).cleared
        { d' with fatWbuf := d'.disk slot.lba })

theorem resolveParent_fueled (path : List UInt8) :
    Fueled fun rounds => resolveParent rounds path := by
  refine Fueled.bind (Fueled.const mount) fun m => ?_
  cases (splitLeaf (stripSlash path)).1 with
  | none => exact Fueled.const _
  | some dirs =>
      refine Fueled.ite (Fueled.const _) (Fueled.bind ?_ fun _ => Fueled.const _)
      exact Fueled.bind (Fueled.const mount) fun m =>
        Fueled.ite (Fueled.const _) (walkDirs_fueled _ _)

theorem findDirentAt_fueled (parent : Nat) (raw : List UInt8) :
    Fueled fun rounds => findDirentAt rounds parent raw :=
  Fueled.bind (Fueled.const mount) fun _ =>
    Fueled.bind (searchDir_fueled _ _) fun _ => Fueled.const _

/-- `rmdirLookup` behind `resolveParent`. -/
def rmdirFind (rounds : Nat) (path : List UInt8) : Except Int Nat → DriverM (Except Int Slot)
  | .error _ => pure (.error (-2))
  | .ok parent => do
      match ← findDirentAt rounds parent (buildRawName (leafOf path)) with
      | none => pure (.error (-1))
      | some slot => pure (.ok slot)

theorem rmdirLookup_eq (rounds : Nat) (path : List UInt8) :
    rmdirLookup rounds path = resolveParent rounds path >>= rmdirFind rounds path := rfl

theorem rmdirFind_fueled (path : List UInt8) (result : Except Int Nat) :
    Fueled fun rounds => rmdirFind rounds path result := by
  cases result with
  | error code => exact Fueled.const _
  | ok parent =>
      exact Fueled.bind (findDirentAt_fueled parent _) fun _ => Fueled.const _

theorem rmdirLookup_fueled (path : List UInt8) : Fueled fun rounds => rmdirLookup rounds path := by
  simp only [rmdirLookup_eq]
  exact Fueled.bind (resolveParent_fueled path) (rmdirFind_fueled path)

theorem resolveParent_mount {result : Except Int Nat}
    (returns : Returns (fun rounds => resolveParent rounds path) d result d') : d'.m = d.m := by
  obtain ⟨rounds, run⟩ := returns
  exact resolveParent_keeps (readFatSec_mount d.m) rounds path d rfl result d' run

theorem resolveParent_ends_iff (valid : d.m.valid = true) :
    Ends (fun rounds => resolveParent rounds path) d ↔
      ¬ ∃ dirs, (splitLeaf (stripSlash path)).1 = some dirs ∧ dirs.length < 40 ∧
        Lost (fun _ found => found.de.isDir) (components dirs) d.m.diropenRoot d := by
  unfold resolveParent
  refine (ends_after (mount_run d)).trans ?_
  cases split : (splitLeaf (stripSlash path)).1 with
  | none => exact ⟨by simp, fun _ => ⟨_, d, 0, rfl⟩⟩
  | some dirs =>
      by_cases long : 40 ≤ dirs.length
      · simp only [if_pos long]
        refine ⟨?_, fun _ => ⟨.error (-1), d, 0, rfl⟩⟩
        rintro - ⟨dirs', same, short, -⟩
        obtain rfl := Option.some.inj same
        omega
      · simp only [if_neg long]
        have fueled : Fueled fun rounds => fatDiropenPath rounds dirs :=
          Fueled.bind (Fueled.const mount) fun m =>
            Fueled.ite (Fueled.const _) (walkDirs_fueled _ _)
        refine (fueled.ends_bind_total fun result => ?_).trans
          ((fatDiropenPath_ends_iff valid dirs).trans ?_)
        · cases result <;> exact .pure _
        · have short : dirs.length < 40 := Nat.not_le.mp long
          simp [short]

theorem findDirentAt_ends_iff (valid : d.m.valid = true) (parent : Nat) (raw : List UInt8) :
    Ends (fun rounds => findDirentAt rounds parent raw) d ↔
      ¬ Endless (Found.isRaw raw) (d.m.openParent parent).cleared d := by
  have opened := ends_after (g := fun rounds m =>
    findRaw rounds (if parent = 0 then m.diropenRoot else m.diropenClus parent) raw) (mount_run d)
  refine Iff.trans (b := _) opened ?_
  refine ((searchDir_fueled _ _).ends_bind_total fun _ => .pure _).trans ?_
  exact searchDir_ends_iff valid

theorem findDirentAt_then_ends_iff (valid : d.m.valid = true) {parent : Nat} {raw : List UInt8}
    {α : Type} {next : Option Slot → DriverM α} (total : ∀ found, Total (next found)) :
    Ends (fun rounds => findDirentAt rounds parent raw >>= next) d ↔
      ¬ Endless (Found.isRaw raw) (d.m.openParent parent).cleared d :=
  ((findDirentAt_fueled parent raw).ends_bind_total total).trans
    (findDirentAt_ends_iff valid parent raw)

theorem rmdirLookup_mount {result : Except Int Slot}
    (returns : Returns (fun rounds => rmdirLookup rounds path) d result d') : d'.m = d.m := by
  obtain ⟨rounds, run⟩ := returns
  exact rmdirLookup_keeps (readFatSec_mount d.m) rounds path d rfl result d' run

theorem rmdirLookup_ends_iff (valid : d.m.valid = true) :
    Ends (fun rounds => rmdirLookup rounds path) d ↔
      Ends (fun rounds => resolveParent rounds path) d ∧
        ∀ parent d', Returns (fun rounds => resolveParent rounds path) d (.ok parent) d' →
          ¬ Endless (Found.isRaw (buildRawName (leafOf path))) (d'.m.openParent parent).cleared
            d' := by
  have fueled := resolveParent_fueled path
  have ends_iff (result : Except Int Nat) {d' : Driver} (valid' : d'.m.valid = true) :
      Ends (fun rounds => rmdirFind rounds path result) d' ↔ ∀ parent, result = .ok parent →
        ¬ Endless (Found.isRaw (buildRawName (leafOf path))) (d'.m.openParent parent).cleared
          d' := by
    cases result with
    | error code => exact iff_of_true ⟨_, d', 0, rfl⟩ fun parent none => by cases none
    | ok parent =>
        refine (findDirentAt_then_ends_iff valid' fun found => ?_).trans ?_
        · cases found <;> exact .pure _
        · simp
  simp only [rmdirLookup_eq]
  refine (fueled.ends_bind (rmdirFind_fueled path)).trans ⟨?_, ?_⟩
  · rintro ⟨result, d', returns, ends⟩
    refine ⟨returns.ends, fun parent d'' resolved => ?_⟩
    obtain ⟨rfl, rfl⟩ := fueled.unique returns resolved
    exact (ends_iff _ ((resolveParent_mount returns).symm ▸ valid)).mp ends parent rfl
  · rintro ⟨⟨result, d', returns⟩, found⟩
    refine ⟨result, d', returns,
      (ends_iff result ((resolveParent_mount returns).symm ▸ valid)).mpr ?_⟩
    rintro parent rfl
    exact found parent d' returns

theorem removeDir_fueled (slot : Slot) (first : Nat) :
    Fueled fun rounds => removeDir rounds slot first := by
  refine Fueled.bind ?_ fun _ => Fueled.ite (Fueled.const _) (Fueled.const _)
  exact Fueled.bind (Fueled.const mount) fun m =>
    Fueled.loop (fun c => Fueled.const (freeRound m c)) first

theorem removeDir_ends (accepted : d.m.Accepted) (slot : Slot) (first : Nat) :
    Ends (fun rounds => removeDir rounds slot first) d := by
  have fueled : Fueled fun rounds => fatFreeChain rounds first :=
    Fueled.bind (Fueled.const mount) fun m =>
      Fueled.loop (fun c => Fueled.const (freeRound m c)) first
  refine (fueled.ends_bind_total fun ok => .ite (.pure _) ?_).mpr ?_
  · exact .bind (loadWbuf_then_total (updateSec_total slot.lba _) slot.lba) fun _ => .pure _
  · obtain ⟨rounds, ok, d', run⟩ := fatFreeChain_ends accepted first
    exact ⟨ok, d', rounds, run⟩

/-- `rmdirSlot` behind the search for an entry. -/
def rmdirUnless (rounds : Nat) (slot : Slot) (first : Nat) : Option Found × DirIter → DriverM Int
  | (some _, _) => pure (-4)
  | (none, _) => removeDir rounds slot first

/-- `rmdirSlot` once the sector of the entry is loaded. -/
def rmdirLoaded (rounds : Nat) (slot : Slot) (buf : Sector) : DriverM Int :=
  if !hasAttr (buf.get (slot.off + 11)) attrDir then pure (-3)
  else if firstClusAt buf slot.off < 2 then pure (-1)
  else do
    let m ← mount
    let result ← searchDir rounds (!·.isDot) (m.diropenClus (firstClusAt buf slot.off))
    rmdirUnless rounds slot (firstClusAt buf slot.off) result

theorem rmdirSlot_loaded {slot : Slot} (has : d.blk.Has slot.lba) (rounds : Nat) :
    rmdirSlot rounds slot d =
      rmdirLoaded rounds slot (d.disk slot.lba) { d with fatWbuf := d.disk slot.lba } := by
  rw [rmdirSlot, Prog.bind_eq_of_run (loadWbuf_run has)]
  rfl

theorem rmdirUnless_fueled (slot : Slot) (first : Nat) (result : Option Found × DirIter) :
    Fueled fun rounds => rmdirUnless rounds slot first result := by
  obtain ⟨found, it⟩ := result
  cases found with
  | none => exact removeDir_fueled slot _
  | some found => exact Fueled.const _

theorem rmdirSlot_fueled (slot : Slot) : Fueled fun rounds => rmdirSlot rounds slot := by
  refine Fueled.bind (Fueled.const _) fun ok => Fueled.ite (Fueled.const _) ?_
  refine Fueled.bind (Fueled.const _) fun buf => Fueled.ite (Fueled.const _) ?_
  refine Fueled.ite (Fueled.const _) (Fueled.bind (Fueled.const mount) fun m => ?_)
  exact Fueled.bind (searchDir_fueled _ _) (rmdirUnless_fueled slot _)

/-- What `fat_rmdir` does with the entry: the walk through the directory is the only one of
its loops that may go on for ever. -/
theorem rmdirSlot_ends_iff (accepted : d.m.Accepted) (slot : Slot) :
    Ends (fun rounds => rmdirSlot rounds slot) d ↔
      ¬ (d.blk.Has slot.lba ∧ hasAttr ((d.disk slot.lba).get (slot.off + 11)) attrDir = true ∧
        2 ≤ firstClusAt (d.disk slot.lba) slot.off ∧
        Endless (!·.isDot)
          (d.m.diropenClus (firstClusAt (d.disk slot.lba) slot.off)).cleared
          { d with fatWbuf := d.disk slot.lba }) := by
  by_cases has : d.blk.Has slot.lba
  · simp only [Ends, Returns, rmdirSlot_loaded has, rmdirLoaded]
    by_cases isDir : hasAttr ((d.disk slot.lba).get (slot.off + 11)) attrDir = true
    · simp only [isDir, Bool.not_true, Bool.false_eq_true, if_false, has, true_and]
      by_cases cluster : 2 ≤ firstClusAt (d.disk slot.lba) slot.off
      · simp only [if_neg (Nat.not_lt.mpr cluster), cluster, true_and,
          Prog.bind_eq_of_run (mount_run { d with fatWbuf := d.disk slot.lba })]
        refine (((searchDir_fueled _ _).ends_bind (rmdirUnless_fueled slot _)).trans ⟨?_, ?_⟩).trans
          (searchDir_ends_iff (d := { d with fatWbuf := d.disk slot.lba }) accepted.valid)
        · rintro ⟨result, d', returns, -⟩
          exact returns.ends
        · rintro ⟨⟨found, it⟩, d', returns⟩
          refine ⟨(found, it), d', returns, ?_⟩
          cases found with
          | none =>
              have m : d'.m = d.m :=
                searchDir_mount (d := { d with fatWbuf := d.disk slot.lba }) returns
              exact removeDir_ends (m.symm ▸ accepted) slot _
          | some found => exact ⟨_, d', 0, rfl⟩
      · simp only [if_pos (Nat.not_le.mp cluster), cluster, false_and, not_false_eq_true, iff_true]
        exact ⟨_, _, 0, rfl⟩
    · refine ⟨fun _ inside => isDir inside.2.1,
        fun _ => ⟨-3, { d with fatWbuf := d.disk slot.lba }, 0, ?_⟩⟩
      rw [if_pos (by simp [isDir])]
      rfl
  · have failed : rmdirSlot 0 slot d = some (-1, d) := by
      rw [rmdirSlot, Prog.bind_run, loadWbuf, if_neg has]
      rfl
    simp only [has, false_and, not_false_eq_true, iff_true]
    exact ⟨_, _, 0, failed⟩

/-- `fat_rmdir` behind `rmdirLookup`. -/
def rmdirFound (rounds : Nat) : Except Int Slot → DriverM Int
  | .error code => pure code
  | .ok slot => rmdirSlot rounds slot

theorem fatRmdir_opened (accepted : d.m.Accepted) (rounds : Nat) (path : List UInt8) :
    fatRmdir rounds path d = (rmdirLookup rounds path >>= rmdirFound rounds) d.invalidated := by
  rw [fatRmdir, Prog.bind_eq_of_run (mount_run d), if_neg (by simp [accepted.valid])]
  rfl

theorem rmdirFound_fueled (result : Except Int Slot) :
    Fueled fun rounds => rmdirFound rounds result := by
  cases result with
  | error code => exact Fueled.const _
  | ok slot => exact rmdirSlot_fueled slot

/-- `fat_rmdir` returns exactly when none of its walks is endless. -/
theorem fatRmdir_ends_iff (accepted : d.m.Accepted) (path : List UInt8) :
    Ends (fun rounds => fatRmdir rounds path) d ↔ ¬ RmdirLost path d.invalidated := by
  have valid : d.invalidated.m.valid = true := accepted.valid
  have lookup := rmdirLookup_fueled path
  simp only [Ends, Returns, fatRmdir_opened accepted]
  refine (lookup.ends_bind rmdirFound_fueled).trans ⟨?_, fun notLost => ?_⟩
  · rintro ⟨result, d', returns, ends⟩ lost
    have found := (rmdirLookup_ends_iff valid).mp returns.ends
    cases lost with
    | parent split short lost =>
        exact (resolveParent_ends_iff valid).mp found.1 ⟨_, split, short, lost⟩
    | leaf resolved endless => exact found.2 _ _ resolved endless
    | inside finds has isDir cluster endless =>
        obtain ⟨rfl, rfl⟩ := lookup.unique returns finds
        have accepted' : d'.m.Accepted := (rmdirLookup_mount returns).symm ▸ accepted
        exact (rmdirSlot_ends_iff accepted' _).mp ends ⟨has, isDir, cluster, endless⟩
  · have resolves : Ends (fun rounds => resolveParent rounds path) d.invalidated := by
      refine (resolveParent_ends_iff valid).mpr ?_
      rintro ⟨_, split, short, lost⟩
      exact notLost (.parent split short lost)
    obtain ⟨result, d', returns⟩ := (rmdirLookup_ends_iff valid).mpr
      ⟨resolves, fun parent d' resolved endless => notLost (.leaf resolved endless)⟩
    refine ⟨result, d', returns, ?_⟩
    cases result with
    | error code => exact ⟨_, d', 0, rfl⟩
    | ok slot =>
        have accepted' : d'.m.Accepted := (rmdirLookup_mount returns).symm ▸ accepted
        refine (rmdirSlot_ends_iff accepted' slot).mpr ?_
        rintro ⟨has, isDir, cluster, endless⟩
        exact notLost (.inside returns has isDir cluster endless)

end RemovedDirectory

section WalkLaw

variable {d : Driver}

/-- Each function that walks through directories returns exactly when none of its walks is
endless: some number of rounds is then enough for all its loops. -/
structure Driver.WalksEnd (d : Driver) : Prop where
  dirnext : ∀ it, Ends (fun rounds => fatDirnext rounds it) d ↔
    ¬ Endless (fun _ => true) it.cleared d
  diropenPath : ∀ path, Ends (fun rounds => fatDiropenPath rounds path) d ↔
    ¬ Lost (fun _ found => found.de.isDir) (components path) d.m.diropenRoot d
  fopen : ∀ path fp, Ends (fun rounds => fatFopen rounds path fp) d ↔
    ¬ Lost (fun more found => more && found.de.isDir) (components path) d.m.diropenRoot d
  findEmpty : ∀ parent, Ends (fun rounds => findEmptyDirentAt rounds parent) d ↔
    ¬ ∃ c, d.m.firstOf parent = some c ∧ EndlessFull c d.invalidated
  rmdir : ∀ path, Ends (fun rounds => fatRmdir rounds path) d ↔ ¬ RmdirLost path d.invalidated

/-- A walk through a well formed directory is not endless. -/
theorem Driver.Directory.not_endless {it : DirIter} {lbas : List Nat} (readable : Readable d)
    (directory : d.Directory it lbas) (safe : d.Safe it) :
    ¬ Endless (fun _ => true) it.cleared d := by
  rw [← fatDirnext_ends_iff readable.accepted.valid]
  obtain ⟨results, d', run, -⟩ := enumerates_of_safe readable directory safe 1 _ le_rfl
  obtain ⟨⟨result, it'⟩, d₁, first, -⟩ := Prog.bind_eq_some run
  exact ⟨_, d₁, _, first⟩

end WalkLaw

section LinkedToItself

/-- Sixteen deleted entries. -/
def deletedEntries : Sector :=
  (List.range 16).foldl (fun s e => s.blit (e * 32) [0xE5]) Buffer.zero

/-- The small volume with a cluster of deleted entries that is linked to itself. -/
def cyclicVolume : Nat → Sector
  | 1 | 2 => Buffer.zero.blit 0
      [0xF8, 0xFF, 0xFF, 0x03, 0x40, 0x00, 0xFF, 0x5F, 0x00, 0x00, 0x00, 0x00]
  | 7 => deletedEntries
  | lba => smallVolume lba

theorem passed_deleted {accept : Found → Bool} {s : Sector} {slots : List Nat}
    (deleted : ∀ e ∈ slots, s.get (e * 32) = 0xE5) :
    slots.foldlM (passSlot accept s) LfnBuf.clear = some LfnBuf.clear := by
  induction slots with
  | nil => rfl
  | cons e slots ih =>
      have first := deleted e List.mem_cons_self
      have pass : passSlot accept s LfnBuf.clear e = some LfnBuf.clear := by
        rw [passSlot, if_neg (by simp [first]), if_pos first]
      rw [List.foldlM_cons, pass]
      exact ih fun e mem => deleted e (List.mem_cons_of_mem _ mem)

/-- A cluster of one sector with deleted entries only, linked to itself. -/
structure Driver.Cyclic (d : Driver) (c : Nat) : Prop where
  readable : Readable d
  cluster : d.m.IsCluster c
  single : d.m.secPerClus = 1
  deleted : ∀ e < 16, (d.disk (d.m.clusToLba c)).get (e * 32) = 0xE5
  linked : d.m.next d.disk c = c
  fresh : d.FreshFor c

theorem dirAdvance_link {d d' : Driver} {it : DirIter} {next : Nat} (cluster : it.curClus ≠ 0)
    (last : ¬ u32 (u32 (it.curLba + 2 ^ 32 - d.m.clusToLba it.curClus) + 1) < d.m.secPerClus)
    (link : fatNextClus it.curClus d = some (next, d')) (more : next ≠ noClus) :
    dirAdvance it d = some (.inl (it.atSector next (d.m.clusToLba next)), d') := by
  rw [dirAdvance, Prog.bind_eq_of_run (mount_run d), if_neg cluster, if_neg last,
    Prog.bind_eq_of_run link, if_neg more]
  rfl

/-- Each time around the iterator is at the start of the cluster again. -/
theorem Driver.Cyclic.passes {d : Driver} {it : DirIter} {c : Nat} (cyclic : d.Cyclic c)
    (accept : Found → Bool) (n : Nat) (clean : it.lfn = LfnBuf.clear) :
    Passes accept n (it.atSector c (d.m.clusToLba c)) d := by
  induction n generalizing d it with
  | zero => trivial
  | succ n ih =>
      have readable := cyclic.readable
      have lba := readable.lays.clusToLba_eq cyclic.cluster
      have inside := readable.lays.dataLba_lt (s := 0) cyclic.cluster (by simp [cyclic.single])
      have capacity := readable.capacity_lt
      have start := readable.lays.dataStart
      have positive : d.m.clusToLba c ≠ 0 := by
        rw [lba, Mount.dataLba]
        omega
      have has : d.blk.Has (d.m.clusToLba c) := by
        rw [lba]
        exact ⟨by omega, inside⟩
      have cluster : c ≠ 0 := Nat.ne_of_gt (Nat.lt_of_lt_of_le Nat.two_pos cyclic.cluster.1)
      have behind : ¬ u32 (u32 (d.m.clusToLba c + 2 ^ 32 - d.m.clusToLba c) + 1) <
          d.m.secPerClus := by
        rw [Nat.add_sub_cancel_left, cyclic.single]
        decide
      have inRange : c < d.m.clusterCount + 2 := cyclic.cluster.2
      obtain ⟨d', link, blk, m, coherent⟩ := fatNextClus_fresh (readable.places inRange)
        (readable.hasEntry inRange) cyclic.fresh
      rw [cyclic.linked] at link
      have more : c ≠ noClus := readable.lays.cluster_ne_noClus cyclic.cluster
      have cyclic' : d'.Cyclic c := {
        readable := readable.of_device blk m
        cluster := m.symm ▸ cyclic.cluster
        single := m.symm ▸ cyclic.single
        deleted := by rw [Driver.disk, blk, m]; exact cyclic.deleted
        linked := by rw [Driver.disk, blk, m]; exact cyclic.linked
        fresh := coherent.freshFor c }
      let loaded : DirIter :=
        { it.atSector c (d.m.clusToLba c) with
          buf := d.disk (d.m.clusToLba c), bufLba := d.m.clusToLba c, bufLbaValid := true }
      refine ⟨positive, loaded, LfnBuf.clear,
        { loaded with lfn := LfnBuf.clear }.atSector c (d.m.clusToLba c), d', ?_, ?_, ?_, ?_⟩
      · exact (if_neg (by simp [DirIter.atSector])).trans (if_pos has)
      · rw [show (it.atSector c (d.m.clusToLba c)).lfn = LfnBuf.clear from clean]
        refine passed_deleted fun e mem => cyclic.deleted e ?_
        exact (List.mem_range'_1.mp mem).2
      · exact dirAdvance_link cluster behind link more
      · rw [← m]
        exact ih cyclic' rfl

end LinkedToItself

end Ncd15.Fat
