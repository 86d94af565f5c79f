import Ncd15.Fat.Coherence

/-!
# Walks through directories

What a walk through directories finds depends on the device and the mount data alone, not
on what the shared buffer holds.  The components a path is cut into are its names when none
of them is longer than the buffer for one.
-/

namespace Ncd15.Fat

open Ncd15.Library

section Again

/-- The buffer may serve table reads, and caches a sector of the device. -/
def Settled (d : Driver) : Prop :=
  Good d ∧ (d.fatBufValid = true → d.blk.Has d.fatBufLba)

theorem Idle.settled {d : Driver} (idle : Idle d) : Settled d :=
  ⟨idle.good, fun valid => by simp [idle.2] at valid⟩

/-- A table read delivers the sector of the device, if there is one. -/
theorem readFatSec_settled {d : Driver} (settled : Settled d) (lba : Nat) :
    ∃ d', readFatSec lba d = some (decide (d.blk.Has lba), d') ∧ Settled d' ∧
      d'.blk = d.blk ∧ d'.m = d.m ∧ (d.blk.Has lba → d'.fatWbuf = d.disk lba) := by
  have goods := readFatSec_good lba d settled.1
  unfold readFatSec at goods ⊢
  by_cases hit : d.fatBufValid = true ∧ d.fatBufLba = lba
  · rw [if_pos hit] at goods ⊢
    have has : d.blk.Has lba := hit.2 ▸ settled.2 hit.1
    refine ⟨_, ?_, ⟨goods true _ rfl, settled.2⟩, rfl, rfl, fun _ => ?_⟩
    · rw [decide_eq_true has]
    · have held := settled.1.2 hit.1
      rwa [hit.2] at held
  rw [if_neg hit] at goods ⊢
  by_cases has : d.blk.Has lba
  · rw [if_pos has] at goods ⊢
    refine ⟨_, ?_, ⟨goods true _ rfl, fun _ => has⟩, rfl, rfl, fun _ => rfl⟩
    rw [decide_eq_true has]
  · rw [if_neg has] at goods ⊢
    refine ⟨d, ?_, settled, rfl, rfl, fun within => absurd within has⟩
    rw [decide_eq_false has]

/-- Two drivers over the same device with the same volume mounted. -/
structure SameVolume (d e : Driver) : Prop where
  settled : Settled d
  settled' : Settled e
  blk : e.blk = d.blk
  m : e.m = d.m

theorem SameVolume.refl {d : Driver} (settled : Settled d) : SameVolume d d :=
  ⟨settled, settled, rfl, rfl⟩

theorem SameVolume.symm {d e : Driver} (same : SameVolume d e) : SameVolume e d :=
  ⟨same.settled', same.settled, same.blk.symm, same.m.symm⟩

theorem SameVolume.trans {d e f : Driver} (first : SameVolume d e) (second : SameVolume e f) :
    SameVolume d f :=
  ⟨first.settled, second.settled', second.blk.trans first.blk, second.m.trans first.m⟩

theorem readFatSec_sameVolume (d : Driver) : KeptByReads (SameVolume d) := by
  intro lba e same ok e' run
  obtain ⟨e₁, there, settled, blk, m, -⟩ := readFatSec_settled same.settled' lba
  obtain ⟨-, rfl⟩ := Prod.mk.inj (Option.some.inj (there.symm.trans run))
  exact same.trans ⟨same.settled', settled, blk, m⟩

/-- The drivers, whose buffers hold the same sector. -/
def SameBuffer (d e : Driver) : Prop := SameVolume d e ∧ e.fatWbuf = d.fatWbuf

theorem mount_alike {R : Driver → Driver → Prop} (same : ∀ d e, R d e → e.m = d.m) :
    Alike R mount fun _ => R := by
  rintro d e related m d' ⟨⟩
  exact ⟨e, congrArg (fun m => some (m, e)) (same d e related), related⟩

theorem wbuf_alike : Alike SameBuffer wbuf fun _ => SameBuffer := by
  rintro d e related s d' ⟨⟩
  exact ⟨e, congrArg (fun s => some (s, e)) related.2, related⟩

/-- A table read finds the same sector. -/
theorem readFatSec_alike (lba : Nat) :
    Alike SameVolume (readFatSec lba) fun ok d e =>
      SameVolume d e ∧ (ok = true → e.fatWbuf = d.fatWbuf) := by
  intro d e same ok d' run
  obtain ⟨d₁, here, settled, blk, m, read⟩ := readFatSec_settled same.settled lba
  obtain ⟨e₁, there, settled', blk', m', read'⟩ := readFatSec_settled same.settled' lba
  obtain ⟨rfl, rfl⟩ := Prod.mk.inj (Option.some.inj (here.symm.trans run))
  rw [same.blk] at there read'
  refine ⟨e₁, there, ⟨settled, settled', ?_, ?_⟩, fun ok => ?_⟩
  · rw [blk', blk, same.blk]
  · rw [m', m, same.m]
  · have has := of_decide_eq_true ok
    rw [read' has, read has, Driver.disk, same.blk]

theorem readFatSec_then_alike {lba : Nat} {α : Type} {failed : α} {next : DriverM α}
    (onRead : Alike SameBuffer next fun _ => SameVolume) :
    Alike SameVolume (do if !(← readFatSec lba) then pure failed else next) fun _ =>
      SameVolume := by
  refine Alike.bind (readFatSec_alike lba) fun ok => ?_
  cases ok with
  | false => exact Alike.pure fun _ _ post => post.1
  | true => exact onRead.strengthen fun _ _ post => ⟨post.1, post.2 rfl⟩

theorem SameBuffer.volume {d e : Driver} (same : SameBuffer d e) : SameVolume d e := same.1

theorem fatNextClus12_alike (m : Mount) (clus : Nat) :
    Alike SameVolume (fatNextClus12 m clus) fun _ => SameVolume := by
  refine readFatSec_then_alike (Alike.ite (fun _ => ?_) fun _ => ?_)
  · refine (readFatSec_then_alike ?_).strengthen fun _ _ => SameBuffer.volume
    refine (readFatSec_then_alike ?_).strengthen fun _ _ => SameBuffer.volume
    refine Alike.bind wbuf_alike fun _ => ?_
    refine (readFatSec_then_alike ?_).strengthen fun _ _ => SameBuffer.volume
    exact Alike.bind wbuf_alike fun _ => Alike.pure fun _ _ => SameBuffer.volume
  · exact Alike.bind wbuf_alike fun _ => Alike.pure fun _ _ => SameBuffer.volume

theorem fatNextClus_alike (clus : Nat) :
    Alike SameVolume (fatNextClus clus) fun _ => SameVolume := by
  refine Alike.bind (mount_alike fun _ _ => SameVolume.m) fun m => ?_
  have one {idx : Sector → Nat} : Alike SameVolume (do
      if !(← readFatSec (m.entryLba clus)) then pure noClus
      else do pure (idx (← wbuf))) fun _ => SameVolume :=
    readFatSec_then_alike (Alike.bind wbuf_alike fun _ => Alike.pure fun _ _ => SameBuffer.volume)
  dsimp only
  split
  · exact one
  · exact one
  · exact fatNextClus12_alike m clus

theorem dirLoadSector_alike (it : DirIter) :
    Alike SameVolume (dirLoadSector it) fun _ => SameVolume := by
  intro d e same loaded d' run
  unfold dirLoadSector at run ⊢
  rw [Driver.disk, same.blk]
  split at run
  · rename_i cached
    obtain ⟨rfl, rfl⟩ := Prod.mk.inj (Option.some.inj run)
    exact ⟨e, if_pos cached, same⟩
  rename_i other
  rw [if_neg other]
  split at run
  · rename_i has
    obtain ⟨rfl, rfl⟩ := Prod.mk.inj (Option.some.inj run)
    exact ⟨e, if_pos has, same⟩
  · rename_i out
    obtain ⟨rfl, rfl⟩ := Prod.mk.inj (Option.some.inj run)
    exact ⟨e, if_neg out, same⟩

theorem dirAdvance_alike (it : DirIter) :
    Alike SameVolume (dirAdvance it) fun _ => SameVolume := by
  refine Alike.bind (mount_alike fun _ _ => SameVolume.m) fun m => ?_
  refine Alike.ite (fun _ => ?_) fun _ => ?_
  · exact Alike.ite (fun _ => Alike.pure fun _ _ => id) fun _ => Alike.pure fun _ _ => id
  refine Alike.ite (fun _ => Alike.pure fun _ _ => id) fun _ => ?_
  refine Alike.bind (fatNextClus_alike _) fun nxt => ?_
  exact Alike.ite (fun _ => Alike.pure fun _ _ => id) fun _ => Alike.pure fun _ _ => id

theorem dirRound_alike (it : DirIter) :
    Alike SameVolume (dirRound it) fun _ => SameVolume := by
  refine Alike.ite (fun _ => Alike.pure fun _ _ => id) fun _ => ?_
  refine Alike.bind (dirLoadSector_alike it) fun loaded => ?_
  cases loaded with
  | none => exact Alike.pure fun _ _ => id
  | some it =>
      exact Alike.ite (fun _ => dirAdvance_alike it) fun _ => Alike.pure fun _ _ => id

theorem fatDirnext_alike (rounds : Nat) (it : DirIter) :
    Alike SameVolume (fatDirnext rounds it) fun _ => SameVolume := by
  refine Alike.bind (mount_alike fun _ _ => SameVolume.m) fun m => ?_
  refine Alike.ite (fun _ => Alike.pure fun _ _ => id) fun _ => ?_
  exact Alike.loop_keeps dirRound_alike rounds _

theorem searchDir_alike (rounds : Nat) (accept : Found → Bool) (it : DirIter) :
    Alike SameVolume (searchDir rounds accept it) fun _ => SameVolume := by
  refine Alike.loop_keeps (fun it => ?_) rounds it
  refine Alike.bind (fatDirnext_alike rounds it) fun result => ?_
  obtain ⟨result, it⟩ := result
  cases result <;> exact Alike.pure fun _ _ => id

theorem walkDirs_alike (rounds : Nat) (comps : List (List UInt8 × Bool)) (it : DirIter) :
    Alike SameVolume (walkDirs rounds comps it) fun _ => SameVolume := by
  induction comps generalizing it with
  | nil => exact Alike.pure fun _ _ => id
  | cons comp rest ih =>
      rw [walkDirs]
      refine Alike.bind (searchDir_alike rounds _ it) fun result => ?_
      obtain ⟨found, it⟩ := result
      cases found with
      | none => exact Alike.pure fun _ _ => id
      | some found =>
          refine Alike.ite (fun _ => Alike.pure fun _ _ => id) fun _ => ?_
          exact Alike.bind (mount_alike fun _ _ => SameVolume.m) fun m => ih _

end Again

section Names

/-- A name that fits in the buffer of the path walks for one component. -/
structure IsName (name : List UInt8) : Prop where
  nonempty : name ≠ []
  noSlash : 47 ∉ name
  length_le : name.length ≤ 15

instance (name : List UInt8) : Decidable (IsName name) :=
  decidable_of_iff (name ≠ [] ∧ 47 ∉ name ∧ name.length ≤ 15)
    ⟨fun is => ⟨is.1, is.2.1, is.2.2⟩, fun is => ⟨is.nonempty, is.noSlash, is.length_le⟩⟩

/-- The path through some components. -/
def joinPath (names : List (List UInt8)) : List UInt8 := names.flatMap (47 :: ·)

@[simp] theorem joinPath_cons (name : List UInt8) (names : List (List UInt8)) :
    joinPath (name :: names) = 47 :: (name ++ joinPath names) := rfl

@[simp] theorem joinPath_append (first second : List (List UInt8)) :
    joinPath (first ++ second) = joinPath first ++ joinPath second := by
  simp [joinPath]

/-- A name in front of a path is taken as a component. -/
theorem takeComponent_join {name : List UInt8} (isName : IsName name)
    (names : List (List UInt8)) :
    takeComponent (name ++ joinPath names) = (name, joinPath names) := by
  have comp : ((name ++ joinPath names).take 15).takeWhile (· ≠ 47) = name := by
    have within : ∀ c ∈ name, decide (c ≠ 47) = true := by
      intro c mem
      rw [decide_eq_true_eq]
      rintro rfl
      exact isName.noSlash mem
    rw [List.take_append, List.take_of_length_le isName.length_le,
      List.takeWhile_append_of_pos within]
    cases names with
    | nil => simp [joinPath]
    | cons next rest => cases 15 - name.length <;> simp
  rw [takeComponent, comp, List.drop_left]

theorem splitPath_join {names : List (List UInt8)} (isNames : ∀ name ∈ names, IsName name)
    {bound : Nat} (enough : (joinPath names).length ≤ bound) :
    (splitPath bound (stripSlash (joinPath names))).map Prod.fst = names := by
  induction names generalizing bound with
  | nil => cases bound <;> rfl
  | cons name names ih =>
      have isName := isNames name List.mem_cons_self
      rw [joinPath_cons, List.length_cons, List.length_append] at enough
      rw [joinPath_cons, stripSlash]
      cases bound with
      | zero => omega
      | succ bound =>
          have nonempty : name ++ joinPath names ≠ [] := by
            simp [isName.nonempty]
          have taken := takeComponent_join isName names
          obtain ⟨c, rest, cons⟩ := List.exists_cons_of_ne_nil nonempty
          have step : splitPath (bound + 1) (name ++ joinPath names) =
              (name, decide ((joinPath names).head? = some 47)) ::
                splitPath bound (stripSlash (joinPath names)) := by
            rw [cons] at taken ⊢
            rw [splitPath, taken]
            exact List.cons_ne_nil c rest
          rw [step, List.map_cons]
          refine congrArg (name :: ·) (ih (fun name mem => ?_) (by omega))
          exact isNames name (List.mem_cons_of_mem _ mem)

/-- The path walks find the names again. -/
theorem components_join {names : List (List UInt8)} (isNames : ∀ name ∈ names, IsName name) :
    (components (joinPath names)).map Prod.fst = names :=
  splitPath_join isNames le_rfl

/-- Whether a slash follows a component does not matter to the walk. -/
theorem walkDirs_names (rounds : Nat) {comps comps' : List (List UInt8 × Bool)}
    (same : comps.map Prod.fst = comps'.map Prod.fst) (it : DirIter) :
    walkDirs rounds comps it = walkDirs rounds comps' it := by
  induction comps generalizing comps' it with
  | nil =>
      cases comps' with
      | nil => rfl
      | cons comp rest => simp at same
  | cons comp rest ih =>
      cases comps' with
      | nil => simp at same
      | cons comp' rest' =>
          obtain ⟨name, more⟩ := comp
          obtain ⟨name', more'⟩ := comp'
          rw [List.map_cons, List.map_cons, List.cons.injEq] at same
          obtain ⟨rfl, same⟩ := same
          rw [walkDirs, walkDirs]
          simp only [ih same]

end Names

end Ncd15.Fat
