import Ncd15.Fat.WalkEnds

/-!
# Walks along a path

`fat_diropen_path` and `fat_fopen` take the components of a path one after the other and
look each of them up in the directory that the last one has led to.
-/

namespace Ncd15.Fat

open Ncd15.Library

section Searches

variable {d d' : Driver} {it it' : DirIter} {rest : List Nat} {accept : Found → Bool}
  {b : BlkDev} {m : Mount} {Q : DirIter → Driver → Prop}

/-- The entry that a search comes to with these sectors behind the iterator. -/
def DirIter.sought (it : DirIter) (disk : Nat → Sector) (accept : Found → Bool)
    (rest : List Nat) : Option Found :=
  ((listing disk it.lfn (it.left rest)).find? (accept ·.2)).map Prod.snd

/-- The loop of a search, as one loop over the slots. -/
def searchSlots (accept : Found → Bool) (rounds : Nat) (it : DirIter) :
    DriverM (Option Found × DirIter) :=
  Prog.loop (flatRound dirRound (searchStep accept)) rounds it

theorem searchDir_of_slots {value : Option Found} (valid : d.m.valid = true)
    (returns : Returns (fun rounds => searchSlots accept rounds it.cleared) d (value, it') d') :
    Returns (fun rounds => searchDir rounds accept it) d (value, it') d' := by
  obtain ⟨rounds, run⟩ := returns
  obtain ⟨rounds', nested⟩ := nested_of_flat run
  exact ⟨rounds', (searchLoop_eq rounds' rounds' valid).trans nested⟩

theorem searchSlots_inl {value : Option Found × DirIter} {it₁ : DirIter} {d₁ : Driver}
    (round : flatRound dirRound (searchStep accept) it d = some (.inl it₁, d₁))
    (returns : Returns (fun rounds => searchSlots accept rounds it₁) d₁ value d') :
    Returns (fun rounds => searchSlots accept rounds it) d value d' := by
  obtain ⟨rounds, run⟩ := returns
  exact ⟨rounds + 1, (Prog.loop_inl round).trans run⟩

theorem searchSlots_inr {value : Option Found × DirIter}
    (round : flatRound dirRound (searchStep accept) it d = some (.inr value, d')) :
    Returns (fun rounds => searchSlots accept rounds it) d value d' :=
  ⟨1, Prog.loop_inr round⟩

/-- The slot in front of the iterator was never used. -/
def DirIter.AtUnused (it : DirIter) (disk : Nat → Sector) : Prop :=
  (disk it.curLba).get (it.entIdx * 32) = 0x00

/-- A slot ends the search, whatever comes behind it, or it is passed. -/
theorem searchSlot (accept : Found → Bool) (small : d.blk.capacity < 2 ^ 32)
    (standing : Standing d it rest) (more : it.entIdx < 16) :
    (∃ value, flatRound dirRound (searchStep accept) it d = some (.inr value, d) ∧
      (value.1.isSome ∨ it.AtUnused d.disk) ∧
      ∀ rest, it.sought d.disk accept rest = value.1) ∨
    ¬ it.AtUnused d.disk ∧ ∃ lfn,
      flatRound dirRound (searchStep accept) it d = some (.inl (it.past d.disk lfn), d) ∧
      ∀ rest, it.sought d.disk accept rest = (it.past d.disk lfn).sought d.disk accept rest := by
  have round := dirRound_slot small standing more
  unfold DirIter.sought
  rcases entry_cases it d.disk more with ⟨⟨unused, ends⟩, none_left⟩ | ⟨used, entry⟩
  · rw [ends] at round
    refine .inl ⟨_, flatRound_inr round, .inr unused, fun rest => ?_⟩
    rw [none_left]
    rfl
  rcases entry with ⟨lfn, goesOn, same⟩ | ⟨found, shows, same⟩
  · rw [goesOn] at round
    exact .inr ⟨used, lfn, flatRound_inl round, fun rest => by rw [same]; rfl⟩
  rw [shows] at round
  have flat := flatRound_inr (k := searchStep accept) round
  rw [searchStep] at flat
  by_cases wanted : accept found = true
  · rw [if_pos wanted] at flat
    refine .inl ⟨_, flat, .inl rfl, fun rest => ?_⟩
    rw [same, List.find?_cons_of_pos (by exact wanted)]
    rfl
  · rw [if_neg wanted] at flat
    refine .inr ⟨used, _, flat, fun rest => ?_⟩
    rw [same, List.find?_cons_of_neg (by exact wanted)]
    rfl

/-- At the end of a sector the search goes on behind it, or there is nothing more. -/
theorem searchEnd (accept : Found → Bool) {d' : Driver} (standing : Standing d it rest)
    (last : it.entIdx = 16)
    (round : dirRound it d = some (d.m.dirGo d.disk (it.loaded d.disk), d'))
    (kept : Sum.elim (Q · d') (fun result => Q result.2 d') (d.m.dirGo d.disk (it.loaded d.disk)))
    (blk : d'.blk = d.blk) (mount : d'.m = d.m) :
    (∃ it', flatRound dirRound (searchStep accept) it d = some (.inr (none, it'), d') ∧
      Q it' d' ∧ it.sought d.disk accept rest = none) ∨
    ∃ it' rest', flatRound dirRound (searchStep accept) it d = some (.inl it', d') ∧ Q it' d' ∧
      Standing d' it' rest' ∧ it'.work rest' < it.work rest ∧
      it'.sought d'.disk accept rest' = it.sought d.disk accept rest := by
  cases rest with
  | nil =>
      obtain ⟨next, round⟩ := ends_of_round standing round
      rw [next] at kept
      refine .inl ⟨_, flatRound_inr round, kept, ?_⟩
      rw [DirIter.sought, DirIter.left_last last]
      rfl
  | cons lba rest =>
      obtain ⟨it', run, moved⟩ := moves_of_round standing last round kept blk mount
      refine .inr ⟨it', rest, flatRound_inl run, moved.kept, moved.standing, moved.less, ?_⟩
      rw [DirIter.sought, DirIter.sought, moved.disk, moved.left, moved.lfn]

/-- A search through a directory that is read as it is. -/
theorem searchSlots_follows (accept : Found → Bool) (follows : Follows b m Q) (q : Q it d)
    (standing : Standing d it rest) :
    ∃ it' d', Returns (fun rounds => searchSlots accept rounds it) d
        (it.sought d.disk accept rest, it') d' ∧ ∃ it₁, Q it₁ d' := by
  induction work : it.work rest using Nat.strong_induction_on generalizing it d rest with
  | _ n ih =>
    obtain ⟨rfl, rfl⟩ := follows.device q
    by_cases more : it.entIdx < 16
    · rcases searchSlot accept follows.capacity_lt standing more with
        ⟨value, flat, -, same⟩ | ⟨used, lfn, flat, same⟩
      · rw [same]
        exact ⟨_, d, searchSlots_inr flat, it, q⟩
      · have kept : Q (it.past d.disk lfn) d :=
          follows.samePlace (follows.passed q used) rfl rfl rfl
        obtain ⟨it', d', returns, final⟩ := ih _ (work ▸ DirIter.work_past more lfn) kept
          (standing.loaded.passed more lfn) rfl
        rw [same]
        exact ⟨it', d', searchSlots_inl flat returns, final⟩
    · have last : it.entIdx = 16 := Nat.le_antisymm standing.idx (Nat.not_lt.mp more)
      obtain ⟨d₁, round, kept⟩ := dirRound_last follows q standing last
      obtain ⟨blk, mount⟩ := follows.device_of_elim kept
      rcases searchEnd accept standing last round kept blk mount with
        ⟨it', flat, q', none_left⟩ | ⟨it', rest', flat, q', standing', less, same⟩
      · rw [none_left]
        exact ⟨it', d₁, searchSlots_inr flat, it', q'⟩
      · obtain ⟨it₂, d₂, returns, final⟩ := ih _ (work ▸ less) q' standing' rfl
        rw [same] at returns
        exact ⟨it₂, d₂, searchSlots_inl flat returns, final⟩

end Searches

section Clusters

variable {d d' : Driver} {it : DirIter} {c : Nat} {inner outer : List Nat} {m : Mount}
  {accept : Found → Bool}

/-- The sectors behind this one in its cluster. -/
def Mount.Row (m : Mount) (c : Nat) : Nat → List Nat → Prop
  | lba, [] => ¬ m.Within c lba
  | lba, lba' :: inner => m.Within c lba ∧ m.Row c lba' inner

/-- The search comes to the end of the cluster. -/
structure LeavesRow (d : Driver) (accept : Found → Bool) (it it' : DirIter)
    (inner outer : List Nat) : Prop where
  onward : ∀ value d', Returns (fun rounds => searchSlots accept rounds it') d value d' →
    Returns (fun rounds => searchSlots accept rounds it) d value d'
  standing : Standing d it' outer
  last : it'.entIdx = 16
  clus : it'.curClus = it.curClus
  outside : ¬ d.m.Within it.curClus it'.curLba
  used : ∀ slot ∈ it.left inner, (d.disk slot.lba).get slot.off ≠ 0x00
  same : ∀ rest, it.sought d.disk accept (inner ++ rest) = it'.sought d.disk accept rest

/-- The search ends within the cluster, whatever comes behind this. -/
structure EndsRow (d : Driver) (accept : Found → Bool) (it : DirIter) (inner : List Nat)
    (value : Option Found × DirIter) : Prop where
  returns : Returns (fun rounds => searchSlots accept rounds it) d value d
  reason : value.1.isSome ∨ ∃ slot ∈ it.left inner, (d.disk slot.lba).get slot.off = 0x00
  same : ∀ rest, it.sought d.disk accept (inner ++ rest) = value.1

/-- A round of the search within the cluster. -/
structure RowStep (d : Driver) (accept : Found → Bool) (it it₁ : DirIter)
    (inner inner₁ : List Nat) : Prop where
  flat : flatRound dirRound (searchStep accept) it d = some (.inl it₁, d)
  clus : it₁.curClus = it.curClus
  fewer : it₁.left inner₁ ⊆ it.left inner
  used : ∀ slot ∈ it.left inner, slot ∈ it₁.left inner₁ ∨ (d.disk slot.lba).get slot.off ≠ 0x00
  same : ∀ rest, it.sought d.disk accept (inner ++ rest) = it₁.sought d.disk accept (inner₁ ++ rest)

variable {it₁ it' : DirIter} {inner₁ : List Nat} {value : Option Found × DirIter}

theorem RowStep.ends (step : RowStep d accept it it₁ inner inner₁)
    (ends : EndsRow d accept it₁ inner₁ value) : EndsRow d accept it inner value where
  returns := searchSlots_inl step.flat ends.returns
  reason := ends.reason.imp_right fun ⟨slot, mem, unused⟩ => ⟨slot, step.fewer mem, unused⟩
  same := fun rest => (step.same rest).trans (ends.same rest)

theorem RowStep.leaves (step : RowStep d accept it it₁ inner inner₁)
    (leaves : LeavesRow d accept it₁ it' inner₁ outer) :
    LeavesRow d accept it it' inner outer where
  onward := fun value d' returns => searchSlots_inl step.flat (leaves.onward value d' returns)
  standing := leaves.standing
  last := leaves.last
  clus := leaves.clus.trans step.clus
  outside := step.clus ▸ leaves.outside
  used := fun slot mem => (step.used slot mem).elim (leaves.used slot) id
  same := fun rest => (step.same rest).trans (leaves.same rest)

theorem rowStep_slot {lfn : LfnBuf} (more : it.entIdx < 16) (used : ¬ it.AtUnused d.disk)
    (flat : flatRound dirRound (searchStep accept) it d = some (.inl (it.past d.disk lfn), d))
    (same : ∀ rest, it.sought d.disk accept rest = (it.past d.disk lfn).sought d.disk accept rest) :
    RowStep d accept it (it.past d.disk lfn) inner inner where
  flat := flat
  clus := rfl
  fewer := by
    rw [@DirIter.left_cons it inner more]
    exact List.subset_cons_self _ _
  used := by
    rw [@DirIter.left_cons it inner more]
    exact List.forall_mem_cons.mpr ⟨.inr used, fun slot mem => .inl mem⟩
  same := fun _ => same _

theorem rowStep_sector (accept : Found → Bool) (small : d.blk.capacity < 2 ^ 32)
    (chain : it.curClus ≠ 0) (within : d.m.Within it.curClus it.curLba) {lba : Nat}
    (standing : Standing d it (lba :: inner ++ outer)) (last : it.entIdx = 16) :
    ∃ it₁, RowStep d accept it it₁ (lba :: inner) inner ∧ it₁.curLba = lba ∧
      Standing d it₁ (inner ++ outer) ∧ it₁.work inner < it.work (lba :: inner) := by
  have round := (dirRound_end small standing last).trans
    (@dirAdvance_still d (it.loaded d.disk) (Or.inr within))
  obtain ⟨-, clus, goes, -⟩ := standing.behind
  rw [dirNext_within chain within] at goes
  obtain ⟨rfl, rfl⟩ := Prod.mk.inj (Option.some.inj goes)
  have next : d.m.dirGo d.disk (it.loaded d.disk) =
      .inl ((it.loaded d.disk).atSector it.curClus (u32 (it.curLba + 1))) := by
    unfold Mount.dirGo
    dsimp only [DirIter.loaded]
    rw [dirNext_within chain within]
  obtain ⟨it₁, run, moved⟩ := moves_of_round
    (Q := fun it₁ _ => it₁ = (it.loaded d.disk).atSector it.curClus (u32 (it.curLba + 1)))
    standing last round (by rw [next]; rfl) rfl rfl
  have lfn := moved.lfn
  have standing₁ := moved.standing
  obtain rfl := moved.kept
  have left (rest : List Nat) :
      ((it.loaded d.disk).atSector it.curClus (u32 (it.curLba + 1))).left rest =
        it.left (u32 (it.curLba + 1) :: rest) := by
    rw [DirIter.left_last last]
    rfl
  refine ⟨_, ⟨flatRound_inl run, rfl, ?_, ?_, fun rest => ?_⟩, rfl, standing₁, ?_⟩
  · rw [left]
    exact List.Subset.refl _
  · rw [left]
    exact fun slot mem => .inl mem
  · rw [DirIter.sought, DirIter.sought, left, lfn]
    rfl
  · rw [DirIter.work, DirIter.work, left]
    exact Nat.lt_succ_self _

/-- The search through one cluster reads no link. -/
theorem searchRow (accept : Found → Bool) (small : d.blk.capacity < 2 ^ 32) (chain : it.curClus ≠ 0)
    (row : d.m.Row it.curClus it.curLba inner) (standing : Standing d it (inner ++ outer)) :
    (∃ value, EndsRow d accept it inner value) ∨
      ∃ it', LeavesRow d accept it it' inner outer := by
  induction work : it.work inner using Nat.strong_induction_on generalizing it inner with
  | _ n ih =>
    have goesOn {it₁ : DirIter} {inner₁ : List Nat} (step : RowStep d accept it it₁ inner inner₁)
        (row : d.m.Row it₁.curClus it₁.curLba inner₁) (standing : Standing d it₁ (inner₁ ++ outer))
        (less : it₁.work inner₁ < it.work inner) :
        (∃ value, EndsRow d accept it inner value) ∨
          ∃ it', LeavesRow d accept it it' inner outer :=
      (ih _ (work ▸ less) (step.clus ▸ chain) row standing rfl).imp
        (fun ⟨value, ends⟩ => ⟨value, step.ends ends⟩)
        fun ⟨it', leaves⟩ => ⟨it', step.leaves leaves⟩
    by_cases more : it.entIdx < 16
    · rcases searchSlot accept small standing more with
        ⟨value, flat, reason, same⟩ | ⟨used, lfn, flat, same⟩
      · refine .inl ⟨value, searchSlots_inr flat, reason.imp_right fun unused => ?_,
          fun _ => same _⟩
        rw [@DirIter.left_cons it inner more]
        exact ⟨_, List.mem_cons_self, unused⟩
      · exact goesOn (rowStep_slot more used flat same) row (standing.loaded.passed more lfn)
          (DirIter.work_past more lfn)
    have last : it.entIdx = 16 := Nat.le_antisymm standing.idx (Nat.not_lt.mp more)
    cases inner with
    | nil =>
        refine .inr ⟨it, fun _ _ => id, standing, last, rfl, row, ?_, fun _ => rfl⟩
        rw [DirIter.left_last last]
        nofun
    | cons lba inner =>
        obtain ⟨it₁, step, place, standing₁, less⟩ :=
          rowStep_sector accept small chain row.1 standing last
        have behind := row.2
        rw [← step.clus, ← place] at behind
        exact goesOn step behind standing₁ less

end Clusters

section Lookups

variable {d d' : Driver} {it : DirIter} {c : Nat} {lbas : List Nat} {name : List UInt8}

/-- The first entry of a directory that shows the component as its short or its long name. -/
def lookup (disk : Nat → Sector) (lbas : List Nat) (name : List UInt8) : Option Found :=
  ((dirListing disk lbas).find? (·.2.matches name)).map Prod.snd

/-- The search for the component leaves the first cluster of the directory: no slot there was
never used, and none shows it. -/
def Driver.Leaves (d : Driver) (c : Nat) (name : List UInt8) : Prop :=
  c ≠ 0 ∧ (∀ slot ∈ dirSlots (d.m.clusterLbas c), (d.disk slot.lba).get slot.off ≠ 0x00) ∧
    lookup d.disk (d.m.clusterLbas c) name = none

theorem Mount.Lays.within_iff {m : Mount} {capacity s : Nat} (lays : m.Lays capacity)
    (isCluster : m.IsCluster c) (inside : s < m.secPerClus) :
    m.Within c (m.dataLba c s) ↔ s + 1 < m.secPerClus := by
  have bound := lays.capacity_lt
  have fits : m.dataLba c s < capacity := lays.dataLba_lt isCluster inside
  have start : m.clusToLba c = m.dataLba c 0 := lays.clusToLba_eq isCluster
  have place : m.dataLba c 0 + s = m.dataLba c s := rfl
  rw [Mount.Within, start, u32_back (by omega) (by omega)]
  omega

theorem Mount.Lays.row {m : Mount} {capacity s count : Nat} (lays : m.Lays capacity)
    (isCluster : m.IsCluster c) (size : s + count + 1 = m.secPerClus) :
    m.Row c (m.dataLba c s) (List.range' (m.dataLba c s + 1) count) := by
  induction count generalizing s with
  | zero => exact mt (lays.within_iff isCluster (by omega)).mp (by omega)
  | succ count ih =>
      rw [List.range'_succ]
      exact ⟨(lays.within_iff isCluster (by omega)).mpr (by omega), ih (s := s + 1) (by omega)⟩

/-- The states in which the shared buffer is not stale. -/
theorem Readable.follows_coherent (readable : Readable d) :
    Follows d.blk d.m fun _ e => e.blk = d.blk ∧ e.m = d.m ∧ e.Coherent where
  valid := readable.accepted.valid
  capacity_lt := by
    have small := readable.capacity_lt
    omega
  device := fun kept => ⟨kept.1, kept.2.1⟩
  samePlace := fun kept _ _ _ => kept
  passed := fun kept _ => kept
  advance := by
    rintro it e ⟨blk, m, coherent⟩ - inRange
    have readable' := readable.of_device blk m
    rw [← m] at inRange
    rw [← blk, ← m]
    by_cases still : it.curClus = 0 ∨ e.m.Within it.curClus it.curLba
    · exact ⟨e, dirAdvance_still still, dirGo_rule ⟨rfl, rfl, coherent⟩
        fun _ _ _ => ⟨rfl, rfl, coherent⟩⟩
    · obtain ⟨chain, last⟩ := not_or.mp still
      obtain ⟨e', run, blk', m', coherent'⟩ := fatNextClus_fresh (readable'.places inRange)
        (readable'.hasEntry inRange) (coherent.freshFor _)
      exact ⟨e', dirAdvance_reads chain last run, dirGo_rule ⟨blk', m', coherent'⟩
        fun _ _ _ => ⟨blk', m', coherent'⟩⟩

/-- The states of a walk through the fixed root directory. -/
theorem Readable.follows_fixed (readable : Readable d) :
    Follows d.blk d.m fun it e => it.curClus = 0 ∧ e = d where
  valid := readable.accepted.valid
  capacity_lt := by
    have small := readable.capacity_lt
    omega
  device := fun kept => by rw [kept.2]; exact ⟨rfl, rfl⟩
  samePlace := fun kept clus _ _ => ⟨clus.trans kept.1, kept.2⟩
  passed := fun kept _ => kept
  advance := by
    rintro it e ⟨fixed, rfl⟩ - -
    exact ⟨e, dirAdvance_still (Or.inl fixed), dirGo_rule ⟨fixed, rfl⟩
      fun _ _ next => ⟨dirNext_fixed fixed next, rfl⟩⟩

/-- What a lookup leaves of the shared buffer. -/
structure LookedUp (d d' : Driver) (c : Nat) (name : List UInt8) : Prop where
  blk : d'.blk = d.blk
  m : d'.m = d.m
  fresh : ∀ c', d.Leaves c name ∨ d.FreshFor c' → d'.FreshFor c'

theorem LookedUp.refl (stays : ¬ d.Leaves c name) : LookedUp d d c name :=
  ⟨rfl, rfl, fun _ fresh => fresh.resolve_left stays⟩

theorem LookedUp.of_coherent (blk : d'.blk = d.blk) (m : d'.m = d.m) (coherent : d'.Coherent) :
    LookedUp d d' c name := ⟨blk, m, fun c' _ => coherent.freshFor c'⟩

theorem sought_opened (disk : Nat → Sector) (rest : List Nat)
    (opened : it.entIdx = 0 ∧ it.lfn = LfnBuf.clear) :
    it.sought disk (·.matches name) rest = lookup disk (it.curLba :: rest) name := by
  rw [DirIter.sought, DirIter.left, opened.1, opened.2, List.drop_zero]
  rfl

/-- A directory in a chain of clusters as it is opened. -/
theorem Readable.opened_chain (readable : Readable d) {rest : List Nat}
    (chain : d.m.Chain d.disk (c :: rest)) :
    ∃ inner, d.m.clusterLbas c = d.m.clusToLba c :: inner ∧ d.m.Row c (d.m.clusToLba c) inner ∧
      Standing d (d.m.diropenClus c) (inner ++ rest.flatMap d.m.clusterLbas) := by
  have lays := readable.lays
  have isCluster : d.m.IsCluster c := chain.isCluster 0 (Nat.succ_pos _)
  obtain ⟨count, size⟩ : ∃ count, d.m.secPerClus = count + 1 :=
    ⟨d.m.secPerClus - 1, (Nat.succ_pred_eq_of_pos lays.sectors).symm⟩
  have start : d.m.clusToLba c = d.m.dataLba c 0 := lays.clusToLba_eq isCluster
  have first : d.m.clusterLbas c = d.m.clusToLba c :: List.range' (d.m.clusToLba c + 1) count := by
    rw [lays.clusterLbas_row isCluster, size, List.range'_succ, start]
  obtain ⟨sectors, same, behind⟩ := lays.behind_chain chain
  rw [← start, List.flatMap_cons, first] at same
  rw [← start] at behind
  obtain rfl := (List.cons.inj same).2
  have row : d.m.Row c (d.m.dataLba c 0) (List.range' (d.m.dataLba c 0 + 1) count) :=
    lays.row isCluster (by omega)
  rw [← start] at row
  exact ⟨_, first, row, behind, Nat.zero_le _, nofun⟩

/-- The search that leaves the first cluster reads its link, and the directory is as it is on
the device from there on. -/
theorem LeavesRow.returns {accept : Found → Bool} {inner outer : List Nat} {it' : DirIter}
    (readable : Readable d) (chain : it.curClus ≠ 0) (fresh : d.FreshFor it.curClus)
    (leaves : LeavesRow d accept it it' inner outer) :
    ∃ it'' d', Returns (fun rounds => searchSlots accept rounds it) d
        (it.sought d.disk accept (inner ++ outer), it'') d' ∧
      d'.blk = d.blk ∧ d'.m = d.m ∧ d'.Coherent := by
  have standing := leaves.standing
  have clus := leaves.clus
  have last := leaves.outside
  rw [← clus] at chain fresh last
  have inRange := standing.behind.here.2.2
  have small := readable.capacity_lt
  obtain ⟨d₁, link, blk, m, coherent⟩ := fatNextClus_fresh (readable.places inRange)
    (readable.hasEntry inRange) fresh
  have round := (dirRound_end (by omega) standing leaves.last).trans
    (@dirAdvance_reads d (it'.loaded d.disk) d₁ chain last link)
  have kept : Sum.elim (fun _ => d₁.blk = d.blk ∧ d₁.m = d.m ∧ d₁.Coherent)
      (fun _ => d₁.blk = d.blk ∧ d₁.m = d.m ∧ d₁.Coherent)
      (d.m.dirGo d.disk (it'.loaded d.disk)) :=
    @dirGo_rule _ _ (fun _ => d₁.blk = d.blk ∧ d₁.m = d.m ∧ d₁.Coherent) _ ⟨blk, m, coherent⟩
      fun _ _ _ => ⟨blk, m, coherent⟩
  rw [leaves.same]
  rcases searchEnd (Q := fun _ e => e.blk = d.blk ∧ e.m = d.m ∧ e.Coherent) accept
    standing leaves.last round kept blk m with
    ⟨it'', flat, q, none_left⟩ | ⟨it₁, rest, flat, q, standing₁, -, same⟩
  · rw [none_left]
    exact ⟨it'', d₁, leaves.onward _ _ (searchSlots_inr flat), q⟩
  · obtain ⟨it'', d', returns, -, q'⟩ := searchSlots_follows accept
      readable.follows_coherent q standing₁
    rw [same] at returns
    exact ⟨it'', d', leaves.onward _ _ (searchSlots_inl flat returns), q'⟩

/-- A lookup in a chain of clusters. -/
theorem searchChain (readable : Readable d) {rest : List Nat} (chain : d.m.Chain d.disk (c :: rest))
    (fresh : d.Leaves c name → d.FreshFor c) :
    ∃ it' d', Returns (fun rounds => searchSlots (·.matches name) rounds (d.m.diropenClus c)) d
        (lookup d.disk ((c :: rest).flatMap d.m.clusterLbas) name, it') d' ∧
      LookedUp d d' c name := by
  have isCluster : d.m.IsCluster c := chain.isCluster 0 (Nat.succ_pos _)
  have isChain : c ≠ 0 := Nat.ne_of_gt (Nat.lt_of_succ_lt isCluster.1)
  have small := readable.capacity_lt
  obtain ⟨inner, first, row, standing⟩ := readable.opened_chain chain
  have sought (rest : List Nat) : (d.m.diropenClus c).sought d.disk (·.matches name)
      (inner ++ rest) = lookup d.disk (d.m.clusterLbas c ++ rest) name := by
    rw [sought_opened d.disk (inner ++ rest) ⟨rfl, rfl⟩, first]
    rfl
  have within := sought []
  rw [List.append_nil (d.m.clusterLbas c)] at within
  rw [List.flatMap_cons, ← sought]
  rcases searchRow (·.matches name) (by omega) isChain row standing with
    ⟨value, ends⟩ | ⟨it', leaves⟩
  · rw [ends.same]
    refine ⟨value.2, d, ends.returns, .refl ?_⟩
    rintro ⟨-, used, missing⟩
    rcases ends.reason with found | ⟨slot, mem, unused⟩
    · rw [← ends.same [], within, missing] at found
      exact absurd found (by decide)
    · rw [first] at used
      exact used slot mem unused
  · have leaving : d.Leaves c name := by
      refine ⟨isChain, ?_, ?_⟩
      · rw [first]
        exact leaves.used
      · rw [← within, leaves.same, DirIter.sought, DirIter.left_last leaves.last]
        rfl
    obtain ⟨it'', d', returns, blk, m, coherent⟩ := leaves.returns readable isChain (fresh leaving)
    exact ⟨it'', d', returns, .of_coherent blk m coherent⟩

/-- A lookup that reads no link from a stale buffer comes to the first entry of the directory
that shows the component. -/
theorem findEntryInDir_returns (readable : Readable d) (directory : d.Directory it lbas)
    (fresh : d.Leaves it.curClus name → d.FreshFor it.curClus) :
    ∃ it' d', Returns (fun rounds => findEntryInDir rounds it name) d
        (lookup d.disk lbas name, it') d' ∧ LookedUp d d' it.curClus name := by
  have valid := readable.accepted.valid
  obtain ⟨rest, standing, left, -⟩ := directory.standing readable
  cases directory with
  | root narrow entries whole =>
      have root : d.m.diropenRoot = { DirIter.fresh with curLba := d.m.firstRootSec } :=
        if_neg narrow
      have fixed : d.m.diropenRoot.curClus = 0 := by rw [root]; rfl
      have cleared : d.m.diropenRoot.cleared = d.m.diropenRoot := by rw [root]; rfl
      have sought : d.m.diropenRoot.sought d.disk (·.matches name) rest =
          lookup d.disk d.m.rootLbas name := by
        rw [DirIter.sought, left, root]
        rfl
      obtain ⟨it', d', returns, -, -, rfl⟩ := searchSlots_follows (·.matches name)
        readable.follows_fixed ⟨fixed, rfl⟩ standing
      rw [sought] at returns
      refine ⟨it', d', searchDir_of_slots valid (by rwa [cleared]), .refl ?_⟩
      exact fun leaves => leaves.1 fixed
  | chain chain =>
      obtain ⟨it', d', returns, looked⟩ := searchChain readable chain fresh
      exact ⟨it', d', searchDir_of_slots valid returns, looked⟩

end Lookups

section Components

variable {p name rest : List UInt8} {more : Bool}

/-- The components of a path behind its first slash. -/
def splitSlashes (p : List UInt8) : List (List UInt8) := p.splitOn 47

/-- The directories along a path: a slash at its end adds none. -/
def dirNames (p : List UInt8) : List (List UInt8) :=
  if (splitSlashes p).getLast? = some [] then (splitSlashes p).dropLast else splitSlashes p

/-- The directories along the path of a file, and the name behind its last slash. -/
def fileNames (p : List UInt8) : List (List UInt8) × List UInt8 :=
  ((splitSlashes p).dropLast, (splitSlashes p).getLast?.getD [])

/-- The first component of a path and the rest of it. -/
structure Splits (p name : List UInt8) (more : Bool) (rest : List UInt8) : Prop where
  shorter : rest.length < p.length
  dirs : dirNames p = name :: dirNames rest
  files : fileNames p =
    if more then (name :: (fileNames rest).1, (fileNames rest).2) else ([], name)
  named : more = false → name ≠ []
  comps : name.length ≤ 15 → ∀ n, splitPath (n + 1) p = (name, more) :: splitPath n rest

theorem splitSlashes_ne_nil (p : List UInt8) : splitSlashes p ≠ [] := by
  rw [splitSlashes, List.splitOn_eq_splitOnP]
  exact List.splitOnP_ne_nil _ p

theorem splitSlashes_single (noSlash : 47 ∉ p) : splitSlashes p = [p] := by
  rw [splitSlashes, List.splitOn_eq_splitOnP]
  refine List.splitOnP_eq_singleton fun c mem => ?_
  rw [beq_eq_false_iff_ne]
  rintro rfl
  exact noSlash mem

theorem splitSlashes_slash (noSlash : 47 ∉ name) :
    splitSlashes (name ++ 47 :: rest) = name :: splitSlashes rest := by
  have first := splitSlashes_single noSlash
  rw [splitSlashes, List.splitOn_eq_splitOnP] at first
  rw [splitSlashes, List.splitOn_eq_splitOnP, List.splitOnP_append_cons _ _ (by decide), first]
  rw [splitSlashes, List.splitOn_eq_splitOnP]
  rfl

theorem takeWhile_name (noSlash : 47 ∉ name) : name.takeWhile (· ≠ 47) = name := by
  rw [List.takeWhile_eq_self_iff]
  intro c mem
  rw [decide_eq_true_iff]
  rintro rfl
  exact noSlash mem

theorem takeComponent_slash (noSlash : 47 ∉ name) (short : name.length ≤ 15) :
    takeComponent (name ++ 47 :: rest) = (name, 47 :: rest) := by
  have comp : ((name ++ 47 :: rest).take 15).takeWhile (· ≠ 47) = name := by
    rw [List.take_append, List.take_of_length_le short]
    rcases Nat.eq_or_lt_of_le short with full | less
    · rw [full]
      simpa using takeWhile_name noSlash
    · obtain ⟨k, size⟩ : ∃ k, 15 - name.length = k + 1 := ⟨14 - name.length, by omega⟩
      rw [size, List.take_succ_cons, List.takeWhile_append, takeWhile_name noSlash, if_pos rfl]
      simp
  unfold takeComponent
  dsimp only
  rw [comp, List.drop_left]

theorem takeComponent_last (noSlash : 47 ∉ p) (short : p.length ≤ 15) :
    takeComponent p = (p, []) := by
  unfold takeComponent
  dsimp only
  rw [List.take_of_length_le short, takeWhile_name noSlash, List.drop_length]

/-- A path that is not empty has a first component. -/
theorem exists_splits (nonempty : p ≠ []) : ∃ name more rest, Splits p name more rest := by
  by_cases slash : 47 ∈ p
  · obtain ⟨name, rest, rfl, noSlash⟩ := List.eq_append_cons_of_mem slash
    have split := @splitSlashes_slash name rest noSlash
    have tail := splitSlashes_ne_nil rest
    refine ⟨name, true, rest, ⟨?_, ?_, ?_, nofun, fun short n => ?_⟩⟩
    · simp
      omega
    · rw [dirNames, dirNames, split, List.getLast?_cons_of_ne_nil tail,
        List.dropLast_cons_of_ne_nil tail]
      split <;> rfl
    · rw [fileNames, split, List.getLast?_cons_of_ne_nil tail, List.dropLast_cons_of_ne_nil tail]
      rfl
    · rw [splitPath, takeComponent_slash noSlash short]
      · rfl
      · exact nonempty
  · have split := splitSlashes_single slash
    refine ⟨p, false, [], ⟨List.length_pos_of_ne_nil nonempty, ?_, ?_, fun _ => nonempty,
      fun short n => ?_⟩⟩
    · rw [dirNames, split]
      have empty : dirNames [] = [] := rfl
      simp [nonempty, empty]
    · rw [fileNames, split]
      rfl
    · rw [splitPath, takeComponent_last slash short]
      · rfl
      · exact nonempty

end Components

section Paths

variable {d e : Driver} {it : DirIter} {root lbas : List Nat} {path p : List UInt8}
  {fresh : Nat → Prop}

/-- The directory with this first cluster; the number 0 stands for the root directory. -/
def Mount.dirAt (m : Mount) (c : Nat) : DirIter :=
  if c = 0 then m.diropenRoot else m.diropenClus c

/-- The walk along these names from a directory: the directory that it leads to, or `none`
where one of them is missing or no directory. -/
inductive Driver.Leads (d : Driver) : List Nat → List (List UInt8) → Option (List Nat) → Prop
  | here {lbas : List Nat} : Leads d lbas [] (some lbas)
  | fails {lbas : List Nat} {name : List UInt8} {names : List (List UInt8)}
      (noDir : ∀ found, lookup d.disk lbas name = some found → found.de.isDir = false) :
      Leads d lbas (name :: names) none
  | into {lbas lbas' : List Nat} {name : List UInt8} {names : List (List UInt8)} {found : Found}
      {outcome : Option (List Nat)} (finds : lookup d.disk lbas name = some found)
      (isDir : found.de.isDir = true)
      (directory : d.Directory (d.m.dirAt found.de.firstClus) lbas')
      (rest : Leads d lbas' names outcome) : Leads d lbas (name :: names) outcome

/-- The entry of a file that a name stands for in a directory. -/
def fileIn (disk : Nat → Sector) (lbas : List Nat) (name : List UInt8) : Option Dirent :=
  if name = [] then none
  else (lookup disk lbas name).bind fun found => if found.de.isDir then none else some found.de

/-- The entry of the file that a path stands for. -/
def Driver.LeadsFile (d : Driver) (root : List Nat) (path : List UInt8)
    (outcome : Option Dirent) : Prop :=
  ∃ dir, d.Leads root (fileNames (stripSlash path)).1 dir ∧
    outcome = dir.bind fun lbas => fileIn d.disk lbas (fileNames (stripSlash path)).2

/-- `fat_diropen_path` opens the directory, or fails if there is none. -/
def Driver.Opens (d : Driver) : Option (List Nat) → Except Int DirIter → Prop
  | some lbas, .ok it => d.Directory it lbas
  | none, .error _ => True
  | _, _ => False

/-- `fat_fopen` opens the file, or fails and leaves the handle alone if there is none. -/
def OpensFile (fp : FatFile) : Option Dirent → Int × FatFile → Prop
  | some de, result => result = (0, fp.opened de)
  | none, result => result.1 ≠ 0 ∧ result.2 = fp

/-- Both functions come to what the path stands for, and fail exactly when this is nothing. -/
structure Driver.Resolves (d : Driver) (root : List Nat) (path : List UInt8) : Prop where
  named : (∃ outcome, d.Leads root (dirNames (stripSlash path)) outcome) ∧
    ∃ outcome, d.LeadsFile root path outcome
  dir : ∀ outcome, d.Leads root (dirNames (stripSlash path)) outcome → ∃ result d',
    Returns (fun rounds => fatDiropenPath rounds path) d result d' ∧ d.Opens outcome result
  file : ∀ fp outcome, d.LeadsFile root path outcome → ∃ result d',
    Returns (fun rounds => fatFopen rounds path fp) d result d' ∧ OpensFile fp outcome result

/-- The directories that can be reached from the root directory. -/
inductive Driver.Reached (d : Driver) (root : List Nat) : List Nat → Prop
  | root : Reached d root root
  | sub {lbas lbas' : List Nat} {entry : Slot × Found} (reached : Reached d root lbas)
      (mem : entry ∈ dirListing d.disk lbas) (isDir : entry.2.de.isDir = true)
      (directory : d.Directory (d.m.dirAt entry.2.de.firstClus) lbas') : Reached d root lbas'

/-- A volume with a tree of directories: each entry of one stands for a chain of clusters, or
for the root directory. -/
structure Driver.WellFormed (d : Driver) (root : List Nat) : Prop where
  readable : Readable d
  isRoot : d.Directory d.m.diropenRoot root
  subdirs : ∀ lbas, d.Reached root lbas → ∀ entry ∈ dirListing d.disk lbas,
    entry.2.de.isDir = true → ∃ lbas', d.Directory (d.m.dirAt entry.2.de.firstClus) lbas'

/-- A lookup takes the whole name, and reads a link only if it is one of these. -/
def Driver.Takes (d : Driver) (fresh : Nat → Prop) (c : Nat) (name : List UInt8) : Prop :=
  name.length ≤ 15 ∧ (d.Leaves c name → fresh c)

/-- A walk along these names does so at each of them, and enters no directory by the number 0.
Behind a link that was read every other is as it is on the device. -/
def Driver.Clear (d : Driver) (final : (Nat → Prop) → DirIter → Prop) :
    List (List UInt8) → (Nat → Prop) → DirIter → List Nat → Prop
  | [], fresh, it, _ => final fresh it
  | name :: names, fresh, it, lbas =>
      d.Takes fresh it.curClus name ∧ ∀ found, lookup d.disk lbas name = some found →
        found.de.isDir = true → found.de.firstClus ≠ 0 ∧
          ∀ lbas', d.Directory (d.m.diropenClus found.de.firstClus) lbas' →
            d.Clear final names (fun c => d.Leaves it.curClus name ∨ fresh c)
              (d.m.diropenClus found.de.firstClus) lbas'

/-- The walks of both functions along a path. -/
structure Driver.ClearPath (d : Driver) (root : List Nat) (path : List UInt8) : Prop where
  dir : d.Clear (fun _ _ => True) (dirNames (stripSlash path)) d.FreshFor d.m.diropenRoot root
  file : d.Clear (fun fresh it => (fileNames (stripSlash path)).2 ≠ [] →
      d.Takes fresh it.curClus (fileNames (stripSlash path)).2)
    (fileNames (stripSlash path)).1 d.FreshFor d.m.diropenRoot root

theorem lookup_mem {disk : Nat → Sector} {name : List UInt8} {found : Found}
    (finds : lookup disk lbas name = some found) :
    ∃ entry ∈ dirListing disk lbas, entry.2 = found := by
  obtain ⟨entry, first, same⟩ := Option.map_eq_some_iff.mp finds
  exact ⟨entry, List.mem_of_find?_eq_some first, same⟩

/-- On such a volume each walk has an outcome. -/
theorem Driver.WellFormed.leads (wellFormed : d.WellFormed root) (reached : d.Reached root lbas)
    (names : List (List UInt8)) : ∃ outcome, d.Leads lbas names outcome := by
  induction names generalizing lbas with
  | nil => exact ⟨some lbas, .here⟩
  | cons name names ih =>
      by_cases finds : ∃ found, lookup d.disk lbas name = some found ∧ found.de.isDir = true
      · obtain ⟨found, finds, isDir⟩ := finds
        obtain ⟨entry, mem, rfl⟩ := lookup_mem finds
        obtain ⟨lbas', directory⟩ := wellFormed.subdirs lbas reached entry mem isDir
        obtain ⟨outcome, rest⟩ := ih (reached.sub mem isDir directory)
        exact ⟨outcome, .into finds isDir directory rest⟩
      · exact ⟨none, .fails fun found finds' => by
          simpa using fun isDir => finds ⟨found, finds', isDir⟩⟩

/-- The driver of a walk over this volume, with these links as they are on the device. -/
structure Driver.During (d : Driver) (fresh : Nat → Prop) (e : Driver) : Prop where
  blk : e.blk = d.blk
  m : e.m = d.m
  links : ∀ c, fresh c → e.FreshFor c

theorem Driver.Directory.of_device (directory : d.Directory it lbas) (blk : e.blk = d.blk)
    (m : e.m = d.m) : e.Directory it lbas := by
  have disk : e.disk = d.disk := congrArg BlkDev.sec blk
  cases directory with
  | root narrow entries whole =>
      rw [← m] at narrow entries whole ⊢
      exact .root narrow entries whole
  | chain chain =>
      rw [← m, ← disk] at chain
      rw [← m]
      exact .chain chain

theorem Driver.Directory.cases' (directory : d.Directory it lbas) :
    it = d.m.diropenRoot ∧ lbas = d.m.rootLbas ∨ ∃ c rest, it = d.m.diropenClus c ∧
      d.m.Chain d.disk (c :: rest) ∧ lbas = (c :: rest).flatMap d.m.clusterLbas := by
  cases directory with
  | root narrow entries whole => exact .inl ⟨rfl, rfl⟩
  | chain chain => exact .inr ⟨_, _, rfl, chain, rfl⟩

theorem Driver.During.leaves_iff {c : Nat} {name : List UInt8} (during : d.During fresh e) :
    e.Leaves c name ↔ d.Leaves c name := by
  rw [Driver.Leaves, Driver.Leaves, during.m, Driver.disk, during.blk]

/-- A lookup on the way. -/
theorem Driver.During.lookup {name : List UInt8} (during : d.During fresh e)
    (readable : Readable d) (directory : d.Directory it lbas)
    (takes : d.Takes fresh it.curClus name) :
    ∃ it' e', Returns (fun rounds => findEntryInDir rounds it name) e
        (lookup d.disk lbas name, it') e' ∧
      d.During (fun c => d.Leaves it.curClus name ∨ fresh c) e' := by
  obtain ⟨it', e', returns, looked⟩ := findEntryInDir_returns
    (readable.of_device during.blk during.m) (directory.of_device during.blk during.m)
    fun leaves => during.links _ (takes.2 (during.leaves_iff.mp leaves))
  rw [Driver.disk, during.blk] at returns
  refine ⟨it', e', returns, looked.blk.trans during.blk, looked.m.trans during.m, fun c known => ?_⟩
  exact looked.fresh c (known.imp during.leaves_iff.mpr (during.links c))

theorem dirAt_pos {m : Mount} {c : Nat} (positive : c ≠ 0) : m.dirAt c = m.diropenClus c :=
  if_neg positive

section Steps

variable {value : Option Found} {found : Found} {it' : DirIter} {rounds : Nat} {fp : FatFile}
  {comps : List (List UInt8 × Bool)} {name : List UInt8}

theorem dirsStep_fails (noDir : ∀ found, value = some found → found.de.isDir = false) :
    ∃ code, dirsStep rounds comps (value, it') e = some (.error code, e) := by
  cases value with
  | none => exact ⟨-2, rfl⟩
  | some found =>
      refine ⟨-3, ?_⟩
      simp only [dirsStep, noDir found rfl]
      rfl

theorem dirsStep_into (isDir : found.de.isDir = true) :
    dirsStep rounds comps (some found, it') e =
      walkDirs rounds comps (e.m.diropenClus found.de.firstClus) e := by
  simp only [dirsStep, isDir, Bool.not_true, Bool.false_eq_true, if_false]
  rw [Prog.bind_eq_of_run (mount_run e)]

theorem fileStep_fails (noDir : ∀ found, value = some found → found.de.isDir = false) :
    ∃ code, fileStep rounds fp true comps (value, it') e = some ((code, fp), e) ∧ code ≠ 0 := by
  cases value with
  | none => exact ⟨-2, rfl, by decide⟩
  | some found =>
      refine ⟨-3, ?_, by decide⟩
      simp only [fileStep, noDir found rfl]
      rfl

theorem fileStep_into (isDir : found.de.isDir = true) :
    fileStep rounds fp true comps (some found, it') e =
      walkFile rounds fp comps (e.m.diropenClus found.de.firstClus) e := by
  simp only [fileStep, isDir, Bool.not_true, Bool.false_eq_true, if_false, if_true]
  rw [Prog.bind_eq_of_run (mount_run e)]

/-- The last component of the path of a file. -/
theorem fileStep_last (named : name ≠ []) :
    ∃ result, fileStep rounds fp false comps (lookup d.disk lbas name, it') e = some (result, e) ∧
      OpensFile fp (fileIn d.disk lbas name) result := by
  rw [fileIn, if_neg named]
  cases lookup d.disk lbas name with
  | none => exact ⟨(-2, fp), rfl, ⟨by simp, rfl⟩⟩
  | some found =>
      by_cases isDir : found.de.isDir = true
      · refine ⟨(-4, fp), ?_, ?_⟩
        · simp only [fileStep, isDir]
          rfl
        · rw [Option.bind_some, if_pos isDir]
          exact ⟨by simp, rfl⟩
      · refine ⟨(0, fp.opened found.de), ?_, ?_⟩
        · simp only [fileStep, isDir]
          rfl
        · rw [Option.bind_some, if_neg isDir]
          rfl

end Steps

/-- The walk of `fat_diropen_path` goes where the names lead. -/
theorem walkDirs_leads (readable : Readable d) {n : Nat} (enough : p.length ≤ n)
    {outcome : Option (List Nat)} (during : d.During fresh e) (directory : d.Directory it lbas)
    (clear : d.Clear (fun _ _ => True) (dirNames p) fresh it lbas)
    (leads : d.Leads lbas (dirNames p) outcome) :
    ∃ result e', Returns (fun rounds => walkDirs rounds (splitPath n p) it) e result e' ∧
      d.Opens outcome result := by
  induction n generalizing p it lbas fresh e with
  | zero =>
      obtain rfl := List.length_eq_zero_iff.mp (Nat.le_zero.mp enough)
      cases leads
      exact ⟨.ok it, e, ⟨0, rfl⟩, directory⟩
  | succ n ih =>
      by_cases nonempty : p = []
      · subst nonempty
        cases leads
        exact ⟨.ok it, e, ⟨0, rfl⟩, directory⟩
      obtain ⟨name, more, rest, splits⟩ := exists_splits nonempty
      have shorter := splits.shorter
      rw [splits.dirs] at clear leads
      obtain ⟨takes, onward⟩ := clear
      obtain ⟨it', e', first, during'⟩ := during.lookup readable directory takes
      rw [splits.comps takes.1]
      have next {result : Except Int DirIter} {e'' : Driver}
          (step : Returns (fun rounds => dirsStep rounds (splitPath n rest)
            (lookup d.disk lbas name, it')) e' result e'') :
          Returns (fun rounds => walkDirs rounds ((name, more) :: splitPath n rest) it) e
            result e'' :=
        ((searchDir_fueled _ it).returns_bind (dirsStep_fueled (splitPath n rest))).mpr
          ⟨_, e', first, step⟩
      cases leads with
      | fails noDir =>
          obtain ⟨code, run⟩ := dirsStep_fails noDir
          exact ⟨.error code, e', next ⟨0, run⟩, trivial⟩
      | into finds isDir directory' rest' =>
          obtain ⟨positive, clear'⟩ := onward _ finds isDir
          rw [dirAt_pos positive] at directory'
          obtain ⟨result, e'', ⟨rounds, run⟩, opens⟩ :=
            ih (by omega) during' directory' (clear' _ directory') rest'
          refine ⟨result, e'', next ⟨rounds, ?_⟩, opens⟩
          change dirsStep rounds _ _ e' = _
          rw [finds, dirsStep_into isDir, during'.m]
          exact run

/-- The walk of `fat_fopen` goes where the names lead, and takes the file there. -/
theorem walkFile_leads (readable : Readable d) {n : Nat} (enough : p.length ≤ n) (fp : FatFile)
    {dir : Option (List Nat)} (during : d.During fresh e) (directory : d.Directory it lbas)
    (clear : d.Clear (fun fresh it => (fileNames p).2 ≠ [] →
      d.Takes fresh it.curClus (fileNames p).2) (fileNames p).1 fresh it lbas)
    (leads : d.Leads lbas (fileNames p).1 dir) :
    ∃ result e', Returns (fun rounds => walkFile rounds fp (splitPath n p) it) e result e' ∧
      OpensFile fp (dir.bind fun lbas => fileIn d.disk lbas (fileNames p).2) result := by
  induction n generalizing p it lbas fresh e with
  | zero =>
      obtain rfl := List.length_eq_zero_iff.mp (Nat.le_zero.mp enough)
      cases leads
      exact ⟨(-2, fp), e, ⟨0, rfl⟩, by simp, rfl⟩
  | succ n ih =>
      by_cases nonempty : p = []
      · subst nonempty
        cases leads
        exact ⟨(-2, fp), e, ⟨0, rfl⟩, by simp, rfl⟩
      obtain ⟨name, more, rest, splits⟩ := exists_splits nonempty
      have shorter := splits.shorter
      rw [splits.files] at clear leads ⊢
      have takes : d.Takes fresh it.curClus name := by
        cases more with
        | true => exact clear.1
        | false => exact clear (splits.named rfl)
      obtain ⟨it', e', first, during'⟩ := during.lookup readable directory takes
      rw [splits.comps takes.1]
      have next {result : Int × FatFile} {e'' : Driver}
          (step : Returns (fun rounds => fileStep rounds fp more (splitPath n rest)
            (lookup d.disk lbas name, it')) e' result e'') :
          Returns (fun rounds => walkFile rounds fp ((name, more) :: splitPath n rest) it) e
            result e'' :=
        ((searchDir_fueled _ it).returns_bind (fileStep_fueled fp more (splitPath n rest))).mpr
          ⟨_, e', first, step⟩
      cases more with
      | false =>
          cases leads
          obtain ⟨result, run, opens⟩ := fileStep_last (splits.named rfl)
          exact ⟨result, e', next ⟨0, run⟩, opens⟩
      | true =>
          obtain ⟨-, onward⟩ := clear
          cases leads with
          | fails noDir =>
              obtain ⟨code, run, failed⟩ := fileStep_fails noDir
              exact ⟨(code, fp), e', next ⟨0, run⟩, failed, rfl⟩
          | into finds isDir directory' rest' =>
              obtain ⟨positive, clear'⟩ := onward _ finds isDir
              rw [dirAt_pos positive] at directory'
              obtain ⟨result, e'', ⟨rounds, run⟩, opens⟩ :=
                ih (by omega) during' directory' (clear' _ directory') rest'
              refine ⟨result, e'', next ⟨rounds, ?_⟩, opens⟩
              change fileStep rounds fp true _ _ e' = _
              rw [finds, fileStep_into isDir, during'.m]
              exact run

theorem length_stripSlash_le (path : List UInt8) : (stripSlash path).length ≤ path.length := by
  unfold stripSlash
  split <;> simp

end Paths

section TreeVolume

variable {d : Driver} {it : DirIter} {lbas : List Nat}

/-- `annual-documents` and `ANNUAL~1`. -/
def treeLong : List UInt8 :=
  [97, 110, 110, 117, 97, 108, 45, 100, 111, 99, 117, 109, 101, 110, 116, 115]

def treeShort : List UInt8 := [65, 78, 78, 85, 65, 76, 126, 49]

/-- A piece of a long name with a checksum. -/
def longPiece (seq check : UInt8) (chars : List UInt8) : List UInt8 :=
  let padded := (chars.flatMap fun c => [c, 0]) ++ 0 :: 0 :: List.replicate 26 0xFF
  seq :: padded.take 10 ++ 0x0F :: 0 :: check :: (padded.drop 10).take 12 ++ 0 :: 0 ::
    (padded.drop 22).take 4

/-- The small volume with a directory of these names in cluster 2. -/
def treeVolume : Nat → Sector
  | 1 | 2 => Buffer.zero.blit 0 [0xF8, 0xFF, 0xFF, 0xFF, 0x0F]
  | 3 => editDirEntry 64 (treeShort ++ List.replicate 3 32) 2
      ((Buffer.zero.blit 0 (longPiece 0x42 0xFB (treeLong.drop 13))).blit 32
        (longPiece 1 0xFB (treeLong.take 13)))
  | 4 => dotSector 2 0
  | lba => smallVolume lba

/-- The driver with the volume mounted. -/
def treeDriver : Driver := { Driver.initial treeVolume 40 with m := smallMount }

theorem treeVolume_chain : smallMount.Chain treeVolume [2] where
  isCluster := by
    intro k inside
    match k, inside with
    | 0, _ => exact ⟨by decide, by decide⟩
  linked := by
    intro k inside
    simp at inside
  last := by
    intro k last
    match k, last with
    | 0, _ => decide +kernel

theorem treeVolume_chain_eq {rest : List Nat} (chain : smallMount.Chain treeVolume (2 :: rest)) :
    rest = [] := by
  cases rest with
  | nil => rfl
  | cons c rest =>
      have inRange : c < smallMount.clusterCount + 2 := (chain.isCluster 1 (by simp)).2
      have linked : smallMount.link treeVolume 2 = c := chain.linked 0 (by simp)
      have marked : smallMount.link treeVolume 2 = 0xFFF := by decide +kernel
      have small : smallMount.clusterCount = 36 := rfl
      omega

/-- The root directory and its subdirectory are all there is. -/
theorem tree_directory {c : Nat} (isEntry : c = 0 ∨ c = 2) (m : d.m = smallMount)
    (disk : d.disk = treeVolume) :
    d.Directory (d.m.dirAt c) lbas ↔ lbas = if c = 0 then [3] else [4] := by
  have root : d.m.rootLbas = [3] := by rw [m]; decide
  have sub : [2].flatMap d.m.clusterLbas = [4] := by rw [m]; decide
  constructor
  · intro directory
    rcases directory.cases' with ⟨same, rfl⟩ | ⟨c', rest, same, chain, rfl⟩
    · rcases isEntry with rfl | rfl
      · exact root
      · have clus := congrArg DirIter.curClus same
        rw [m] at clus
        exact absurd clus (by decide)
    · rcases isEntry with rfl | rfl
      · have clus : smallMount.diropenRoot.curClus = c' := by
          have clus := congrArg DirIter.curClus same
          rwa [m] at clus
        have isCluster : 2 ≤ c' := (chain.isCluster 0 (by simp)).1
        rw [← clus] at isCluster
        exact absurd isCluster (by decide)
      · obtain rfl : 2 = c' := congrArg DirIter.curClus same
        rw [m, disk] at chain
        obtain rfl := treeVolume_chain_eq chain
        exact sub
  · rintro rfl
    rcases isEntry with rfl | rfl
    · have narrow : d.m.type ≠ .fat32 ∧ 0 < d.m.rootEntCount ∧ d.m.rootEntCount % 16 = 0 := by
        rw [m]
        decide
      rw [if_pos rfl, ← root]
      exact .root narrow.1 narrow.2.1 narrow.2.2
    · have chain := treeVolume_chain
      rw [← m, ← disk] at chain
      rw [if_neg (by decide), ← sub]
      exact .chain chain

theorem tree_entries : ∀ lbas ∈ [[3], [4]], ∀ entry ∈ dirListing treeVolume lbas,
    entry.2.de.firstClus = 0 ∨ entry.2.de.firstClus = 2 := by
  decide +kernel

theorem tree_wellFormed (m : d.m = smallMount) (capacity : d.blk.capacity = 40)
    (disk : d.disk = treeVolume) : d.WellFormed [3] where
  readable := smallMount_readable m capacity
  isRoot := (tree_directory (.inl rfl) m disk).mpr rfl
  subdirs := by
    have known {lbas : List Nat} (reached : d.Reached [3] lbas) : lbas ∈ [[3], [4]] := by
      induction reached with
      | root => exact List.mem_cons_self
      | sub reached mem isDir directory ih =>
          rw [disk] at mem
          rw [(tree_directory (tree_entries _ ih _ mem) m disk).mp directory]
          split <;> simp
    intro lbas reached entry mem isDir
    rw [disk] at mem
    exact ⟨_, (tree_directory (tree_entries _ (known reached) entry mem) m disk).mpr rfl⟩

/-- What an entry says of a directory. -/
def Found.place (found : Found) : Bool × Nat := (found.de.isDir, found.de.firstClus)

theorem tree_into {c : Nat} {name : List UInt8} {names : List (List UInt8)}
    {outcome : Option (List Nat)} (m : d.m = smallMount) (disk : d.disk = treeVolume)
    (isEntry : c = 0 ∨ c = 2)
    (shows : (lookup treeVolume lbas name).map Found.place = some (true, c))
    (rest : d.Leads (if c = 0 then [3] else [4]) names outcome) :
    d.Leads lbas (name :: names) outcome := by
  obtain ⟨found, finds, place⟩ := Option.map_eq_some_iff.mp shows
  obtain ⟨isDir, rfl⟩ := Prod.mk.inj place
  rw [← disk] at finds
  exact .into finds isDir ((tree_directory isEntry m disk).mpr rfl) rest

theorem tree_clear {name : List UInt8} {names : List (List UInt8)}
    {final : (Nat → Prop) → DirIter → Prop} {fresh : Nat → Prop} (short : name.length ≤ 15)
    (links : ∀ c, fresh c)
    (shows : (lookup treeVolume lbas name).map Found.place = some (true, 2))
    (rest : ∀ fresh : Nat → Prop, (∀ c, fresh c) →
      treeDriver.Clear final names fresh (smallMount.diropenClus 2) [4]) :
    treeDriver.Clear final (name :: names) fresh it lbas := by
  obtain ⟨found, finds, place⟩ := Option.map_eq_some_iff.mp shows
  refine ⟨⟨short, fun _ => links _⟩, fun found' finds' _ => ?_⟩
  obtain rfl : found = found' := Option.some.inj (finds.symm.trans finds')
  have clus : found.de.firstClus = 2 := congrArg Prod.snd place
  rw [clus]
  refine ⟨by decide, fun lbas' directory => ?_⟩
  obtain rfl : lbas' = [4] := (tree_directory (d := treeDriver) (.inr rfl) rfl rfl).mp directory
  exact rest _ fun c => .inr (links c)

theorem not_resolves {root : List Nat} (lbas : List Nat) {path : List UInt8}
    (leads : d.Leads root (dirNames (stripSlash path)) (some lbas))
    (fails : ∃ rounds code d', fatDiropenPath rounds path d = some (.error code, d')) :
    ¬ d.Resolves root path := by
  intro resolves
  obtain ⟨rounds, code, d', run⟩ := fails
  obtain ⟨result, d'', returns, opens⟩ := resolves.dir _ leads
  obtain ⟨rfl, -⟩ := (fatDiropenPath_fueled path).unique ⟨rounds, run⟩ returns
  exact opens

end TreeVolume

end Ncd15.Fat
