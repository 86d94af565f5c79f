import Ncd15.Bdos.LoadRun

/-!
# Where the loaders store

A loader stores as many bytes as the file delivers, and a compressed image once more at the end
of memory, above the transient program area.
-/

namespace Ncd15.Bdos

open Ncd15.Library Ncd15.Fat Ncd15.Xcpm

section Stores

namespace Ram

theorem strayed_storeAll (ram : Ram) (target : Nat → Nat) (value : Ram → Nat → UInt8)
    (indices : List Nat) :
    (ram.storeAll target value indices).strayed = false ↔
      ram.strayed = false ∧ ∀ i ∈ indices, tpaBase ≤ target i ∧ target i < tpaEnd := by
  induction indices generalizing ram with
  | nil => simp [storeAll]
  | cons i rest ih =>
      rw [storeAll, List.foldl_cons, ← storeAll, ih]
      simp [store, and_assoc]

theorem strayed_copyIn {ram : Ram} {addr : Nat} {bytes : List UInt8} (inside : ram.strayed = false)
    (low : tpaBase ≤ addr) (high : addr < tpaEnd) :
    (ram.copyIn addr bytes).strayed = false ↔ bytes.length ≤ tpaEnd - addr := by
  rw [copyIn, strayed_storeAll]
  constructor
  · rintro ⟨-, all⟩
    by_contra long
    have last := (all (tpaEnd - addr) (List.mem_range.mpr (Nat.lt_of_not_le long))).2
    rw [Nat.add_sub_cancel' high.le] at last
    exact absurd last (by decide)
  · intro short
    refine ⟨inside, fun i less => ?_⟩
    rw [List.mem_range] at less
    have exact : u32 (addr + i) = addr + i := Nat.mod_eq_of_lt (by grind)
    rw [exact]
    omega

end Ram

end Stores

section Reading

variable {rounds size : Nat} {fp : FatFile} {l : Loading}

theorem asInt_of_le {v : Int} (negative : v ≤ 0) : asInt v ≤ 0 := by
  rw [asInt, if_neg (by omega)]
  exact negative

/-- The counter of a loader never exceeds the bytes stored. -/
def Loading.Counted (l : Loading) : Prop := l.total ≤ l.bytes.length

/-- A round that goes on moves the counter. -/
theorem loadRound_count (rounds : Nat) (size_lt : size < 2 ^ 32) (l : Loading) :
    Triple (fun _ => True) (loadRound rounds size l)
      (Sum.elim (fun l' _ => size - l'.total < size - l.total ∧ (l.Counted → l'.Counted))
        fun l' _ => l.Counted → l'.Counted) := by
  refine Triple.ite (fun more => ?_) fun _ => Triple.pure fun _ _ => id
  refine (fatFread_count rounds l.fp (size - l.total)).bind fun r => ?_
  obtain ⟨code, bytes, fp⟩ := r
  refine Triple.assuming (fun _ post => post) fun post => ?_
  obtain ⟨result, within⟩ := post
  dsimp only at result within ⊢
  refine Triple.ite (fun _ => Triple.pure fun _ _ counted => ?_) fun positive =>
    Triple.pure fun _ _ => ?_
  · exact counted.trans (by simp)
  · have exact : asInt code = bytes.length := by
      rcases result with negative | rfl
      · exact absurd (asInt_of_le negative) positive
      · rw [asInt] at positive ⊢
        split at positive <;> omega
    have small : u32 (l.total + bytes.length) = l.total + bytes.length :=
      Nat.mod_eq_of_lt (by omega)
    rw [exact] at positive ⊢
    simp only [Sum.elim_inl, Loading.Counted, List.length_append, Int.toNat_natCast]
    omega

theorem loadRound_total (size_lt : size < rounds) (l : Loading) :
    Total (loadRound rounds size l) := by
  refine .ite (.bind (fatFread_returns (by omega) _) fun r => ?_) (.pure _)
  exact .ite (.pure _) (.pure _)

theorem loadWhole_count (rounds : Nat) (size_lt : fatFsize fp < 2 ^ 32) :
    Triple (fun _ => True) (loadWhole rounds fp) fun l _ => l.Counted := by
  refine (Triple.loop (I := fun l _ => l.Counted) (fun l => ?_) rounds
    _).strengthen fun _ _ => Nat.zero_le _
  refine Triple.assuming (fun _ counted => counted) fun counted => ?_
  refine ((loadRound_count rounds size_lt l).strengthen fun _ _ => trivial).weaken
    fun r _ post => ?_
  cases r with
  | inl l' => exact post.2 counted
  | inr l' => exact post counted

theorem loadWhole_returns (size_lt : fatFsize fp < 2 ^ 32) (enough : fatFsize fp < rounds) :
    Total (loadWhole rounds fp) := by
  refine .loop (fun l => fatFsize fp - l.total) (loadRound_total enough) (fun l => ?_)
    ((Nat.sub_le _ _).trans_lt enough)
  refine (loadRound_count rounds size_lt l).weaken fun r _ post => ?_
  cases r with
  | inl l' => exact post.1
  | inr l' => trivial

end Reading

section Loaders

variable {rounds dst : Nat} {path : List UInt8} {m : Machine} {fp : FatFile} {b b' : Kernel}
  {l : Loading}

/-- The machine before any store, with nothing noted. -/
def fresh (m : Machine) : Session :=
  { machine := { m with ram := { m.ram with strayed := false } }, log := [] }

/-- The file that a path names is opened. -/
def Opens (path : List UInt8) (m : Machine) (fp : FatFile) (b : Kernel) : Prop :=
  let full := (m.kernel.buildPath m.kernel.curDrive m.kernel.curUser path 40).getD []
  Returns (fun rounds => callFat (fatFopen rounds full FatFile.unused)) m.kernel (0, fp) b

/-- What an open file delivers when it is read to its size. -/
def Yields (fp : FatFile) (b : Kernel) (l : Loading) (b' : Kernel) : Prop :=
  Returns (fun rounds => callFat (loadWhole rounds fp)) b l b'

theorem Opens.size_lt (opens : Opens path m fp b) : fatFsize fp < 2 ^ 32 := by
  obtain ⟨rounds, run⟩ := opens
  obtain ⟨d, inner, -⟩ := callFat_eq_some run
  obtain ⟨slot, -, -, -, de, entry, rfl⟩ := Fat.fatFopen_opened inner
  have disk := entry.entry
  subst disk
  exact Buffer.loadLe_lt _ _ 4

theorem Opens.yields (opens : Opens path m fp b) : ∃ l b', Yields fp b l b' := by
  obtain ⟨l, d, run⟩ := loadWhole_returns opens.size_lt (Nat.lt_succ_self _) b.fat
  exact ⟨l, _, _, callFat_run run⟩

theorem Opens.counted (opens : Opens path m fp b) (yields : Yields fp b l b') :
    l.Counted := by
  obtain ⟨rounds, run⟩ := yields
  obtain ⟨d, inner, -⟩ := callFat_eq_some run
  exact loadWhole_count rounds opens.size_lt b.fat trivial _ d inner

/-- What is left behind by reading a candidate. -/
def afterReading (path : List UInt8) (dst : Nat) (m : Machine) (l : Loading) (b' : Kernel) :
    Session :=
  { machine := { m with kernel := b', ram := (fresh m).machine.ram.copyIn dst l.bytes }
    log := [.loaded path] }

theorem readProgram_returns (dst : Nat) (opens : Opens path m fp b) (yields : Yields fp b l b') :
    Returns (fun rounds => readProgram rounds path dst) (fresh m)
      (if l.total ≠ fatFsize fp then .error (-3) else .ok (fatFsize fp))
      (afterReading path dst m l b') := by
  obtain ⟨rounds₁, opening⟩ := opens
  obtain ⟨rounds₂, reading⟩ := yields
  have first := callFat_fueled (fatFopen_fueled _ _) (Nat.le_max_left rounds₁ rounds₂) _ _ opening
  have second := callFat_fueled (loadWhole_fueled _) (Nat.le_max_right rounds₁ rounds₂) _ _ reading
  generalize max rounds₁ rounds₂ = rounds at first second
  refine ⟨rounds, ?_⟩
  have got : callKernel get (fresh m) = some (m.kernel, fresh m) := rfl
  change readProgram rounds path dst (fresh m) = _
  rw [readProgram, Prog.bind_eq_of_run got]
  dsimp only
  rw [Prog.bind_eq_of_run (callKernel_run (s := fresh m) first)]
  dsimp only
  rw [if_neg (by decide), Prog.bind_eq_of_run (note_run _ _),
    Prog.bind_eq_of_run (callKernel_run (by exact second)), Prog.modify_bind_run]
  split_ifs <;> rfl

theorem readProgram_short (opens : Opens path m fp b) (yields : Yields fp b l b')
    (short : l.total ≠ fatFsize fp) :
    Returns (fun rounds => readProgram rounds path dst) (fresh m) (.error (-3))
      (afterReading path dst m l b') := by
  simpa [short] using readProgram_returns dst opens yields

theorem readProgram_full (opens : Opens path m fp b) (yields : Yields fp b l b')
    (full : l.total = fatFsize fp) :
    Returns (fun rounds => readProgram rounds path dst) (fresh m) (.ok (fatFsize fp))
      (afterReading path dst m l b') := by
  simpa [full] using readProgram_returns dst opens yields

theorem afterReading_stays_iff (path : List UInt8) (m : Machine) (l : Loading) (b' : Kernel)
    (low : tpaBase ≤ dst) (high : dst < tpaEnd) :
    (afterReading path dst m l b').machine.ram.strayed = false ↔
      l.bytes.length ≤ tpaEnd - dst :=
  Ram.strayed_copyIn rfl low high

theorem tryLoadPathMips_fueled (program : Program) (path tail : List UInt8) :
    Fueled fun rounds => tryLoadPathMips program rounds path tail :=
  .bind (readProgram_fueled _ _) fun _ => .const _

theorem tryLoadPath_fueled (path : List UInt8) : Fueled fun rounds => tryLoadPath rounds path :=
  .bind (readProgram_fueled _ _) fun _ => .const _

/-- The image is an LZSS one, and passes the comparison of its sizes with the memory. -/
def Unpacks (size : Nat) (ram : Ram) : Prop :=
  isLzss ram size = true ∧ u32 (lzssSize ram + size + 0x1000) ≤ ramEnd - cseg

section Decompressing

variable {size : Nat} {after : Int × Machine} (result : decompressTop size m = after)

include result

theorem decompressTop_keeps (stays : after.2.ram.strayed = false) : m.ram.strayed = false := by
  subst result
  dsimp only [decompressTop] at stays
  split at stays
  · exact stays
  · rw [Ram.copyIn, Ram.strayed_storeAll, Ram.strayed_storeAll] at stays
    exact stays.1.1

/-- A compressed image of any size goes to the end of memory. -/
theorem decompressTop_strays (small : size ≤ tpaEnd - cseg) (unpacks : Unpacks size m.ram) :
    after.2.ram.strayed ≠ false := by
  obtain ⟨packed, fits⟩ := unpacks
  have some_bytes : 4 ≤ size := by
    rw [isLzss, Bool.and_eq_true] at packed
    exact of_decide_eq_true packed.1
  have top : ¬ u32 (u32 (ramEnd + 2 ^ 32 - 0x1000 - size) + (size - 1)) < tpaEnd := by
    have src : ramEnd + 2 ^ 32 - 0x1000 - size = ramEnd - 0x1000 - size + 2 ^ 32 := by grind
    rw [src]
    simp only [u32]
    grind
  intro stays
  subst result
  dsimp only [decompressTop] at stays
  rw [if_neg (Nat.not_lt.mpr fits), Ram.copyIn, Ram.strayed_storeAll, Ram.strayed_storeAll] at stays
  exact top (stays.1.2 (size - 1) (by simp; omega)).2

theorem decompressTop_refused (refused : ramEnd - cseg < u32 (lzssSize m.ram + size + 0x1000)) :
    after = (-2, m) := by
  rw [← result, decompressTop]
  exact if_pos refused

end Decompressing

theorem finishPath_packed {size : Nat} {s : Session} {after : Int × Machine}
    (packed : isLzss s.machine.ram size = true) (result : decompressTop size s.machine = after) :
    finishPath size s = some (after.1, { s with machine := after.2 }) := by
  rw [← result]
  exact if_pos packed

theorem finishPath_run (size : Nat) (s : Session) :
    ∃ rc s', finishPath size s = some (rc, s') ∧
      (s'.machine.ram.strayed = false → s.machine.ram.strayed = false) ∧
      (s.machine.ram.strayed = false → size ≤ tpaEnd - cseg →
        (s'.machine.ram.strayed = false ↔ ¬ Unpacks size s.machine.ram)) := by
  by_cases packed : isLzss s.machine.ram size = true
  · obtain ⟨after, result⟩ : ∃ after, decompressTop size s.machine = after := ⟨_, rfl⟩
    refine ⟨_, _, finishPath_packed packed result, decompressTop_keeps result,
      fun inside small => ?_⟩
    constructor
    · exact fun stays unpacks => decompressTop_strays result small unpacks stays
    · intro refused
      have large : ramEnd - cseg < u32 (lzssSize s.machine.ram + size + 0x1000) := by
        by_contra fits
        exact refused ⟨packed, Nat.le_of_not_lt fits⟩
      rw [decompressTop_refused result large]
      exact inside
  · exact ⟨_, _, if_neg packed, id, fun inside _ =>
      ⟨fun _ unpacks => packed unpacks.1, fun _ => inside⟩⟩

end Loaders

section Law

variable {path tail : List UInt8} {m : Machine}

/-- A program that does nothing, so that all stores are those of the loader. -/
def idle : Program := fun _ m => (0, m)

/-- What has to hold of a loader for each file that it opens: it returns, all its stores are in
the transient program area, and for a file larger than the room the result is an error and
nothing has been started.  More rounds do no harm, so that no run ends in another way. -/
def StaysInside (load : Nat → LoadM Int) (room : Nat) (path : List UInt8) (m : Machine) : Prop :=
  ∀ fp b, Opens path m fp b → ∃ rc s', Returns load (fresh m) rc s' ∧
    s'.machine.ram.strayed = false ∧
      (room < fatFsize fp → rc ≠ 0 ∧ Unstarted (fresh m) s')

/-- Every run of a loader ends in one way for what the file yields, so that what is said about
its stores there decides whether it stays inside. -/
theorem stays_iff_of_loads {load : Nat → LoadM Int} {room : Nat}
    (fits : FatFile → Loading → Prop) (fueled : Fueled load)
    (loads : ∀ {fp b l b'}, Opens path m fp b → Yields fp b l b' →
      ∃ rc s', Returns load (fresh m) rc s' ∧ (s'.machine.ram.strayed = false ↔ fits fp l) ∧
        (fits fp l → room < fatFsize fp → rc ≠ 0 ∧ Unstarted (fresh m) s')) :
    StaysInside load room path m ↔
      ∀ fp b l b', Opens path m fp b → Yields fp b l b' → fits fp l := by
  constructor
  · intro inside fp b l b' opens yields
    obtain ⟨rc, s', returns, stayed, -⟩ := inside fp b opens
    obtain ⟨rc', s'', returns', stays, -⟩ := loads opens yields
    obtain ⟨-, rfl⟩ := fueled.unique returns returns'
    exact stays.mp stayed
  · intro all fp b opens
    obtain ⟨l, b', yields⟩ := opens.yields
    obtain ⟨rc, s', returns, stays, short⟩ := loads opens yields
    have small := all fp b l b' opens yields
    exact ⟨rc, s', returns, stays.mpr small, short small⟩

theorem mipsStays_iff :
    StaysInside (fun rounds => tryLoadPathMips idle rounds path tail) (tpaEnd - tpaBase) path m ↔
      ∀ fp b l b', Opens path m fp b → Yields fp b l b' →
        l.bytes.length ≤ tpaEnd - tpaBase := by
  apply stays_iff_of_loads (fun _ l => l.bytes.length ≤ tpaEnd - tpaBase)
    (tryLoadPathMips_fueled idle path tail)
  intro fp b l b' opens yields
  have stays := afterReading_stays_iff path m l b' (le_refl tpaBase) (by decide)
  have counted : l.total ≤ l.bytes.length := opens.counted yields
  by_cases full : l.total = fatFsize fp
  · exact ⟨_, _, (readProgram_full opens yields full).then_run rfl, stays,
      fun small large => absurd full (by omega)⟩
  · exact ⟨_, _, (readProgram_short opens yields full).then_run rfl, stays,
      fun _ _ => ⟨by decide, .loaded rfl⟩⟩

theorem pathStays_iff :
    StaysInside (fun rounds => tryLoadPath rounds path) (tpaEnd - cseg) path m ↔
      ∀ fp b l b', Opens path m fp b → Yields fp b l b' →
        l.bytes.length ≤ tpaEnd - cseg ∧
          ¬ (l.total = fatFsize fp ∧
            Unpacks (fatFsize fp) ((fresh m).machine.ram.copyIn cseg l.bytes)) := by
  apply stays_iff_of_loads (fun fp l => l.bytes.length ≤ tpaEnd - cseg ∧
    ¬ (l.total = fatFsize fp ∧
      Unpacks (fatFsize fp) ((fresh m).machine.ram.copyIn cseg l.bytes))) (tryLoadPath_fueled path)
  intro fp b l b' opens yields
  have stays := afterReading_stays_iff path m l b' (show tpaBase ≤ cseg by decide) (by decide)
  have refused {rc s'} (returns : Returns (fun rounds => tryLoadPath rounds path) (fresh m) rc s') :
      rc ≠ 0 ∧ Unstarted (fresh m) s' := by
    obtain ⟨rounds, run⟩ := returns
    exact tryLoadPath_cases run
  by_cases full : l.total = fatFsize fp
  · obtain ⟨rc, s', finish, keeps, unpacked⟩ :=
      finishPath_run (fatFsize fp) (afterReading path cseg m l b')
    have returns : Returns (fun rounds => tryLoadPath rounds path) (fresh m) rc s' :=
      (readProgram_full opens yields full).then_run finish
    refine ⟨rc, s', returns, ?_, fun _ _ => refused returns⟩
    have counted : l.total ≤ l.bytes.length := opens.counted yields
    constructor
    · intro stayed
      have small := stays.mp (keeps stayed)
      exact ⟨small, fun both =>
        (unpacked (keeps stayed) (by omega)).mp stayed both.2⟩
    · rintro ⟨small, raw⟩
      exact (unpacked (stays.mpr small) (by omega)).mpr fun unpacks => raw ⟨full, unpacks⟩
  · exact ⟨_, _, (readProgram_short opens yields full).then_run rfl,
      stays.trans ⟨fun small => ⟨small, fun both => full both.1⟩, And.left⟩,
      fun _ _ => refused ((readProgram_short opens yields full).then_run rfl)⟩

/-- The loaders stay in the transient program area exactly when the file delivers no more bytes
than there is room for, and is no LZSS image that passes the comparison of its sizes. -/
theorem loadersStay_iff (path tail : List UInt8) (m : Machine) :
    (StaysInside (fun rounds => tryLoadPathMips idle rounds path tail) (tpaEnd - tpaBase) path m ↔
      ∀ fp b l b', Opens path m fp b → Yields fp b l b' →
        l.bytes.length ≤ tpaEnd - tpaBase) ∧
    (StaysInside (fun rounds => tryLoadPath rounds path) (tpaEnd - cseg) path m ↔
      ∀ fp b l b', Opens path m fp b → Yields fp b l b' →
        l.bytes.length ≤ tpaEnd - cseg ∧
          ¬ (l.total = fatFsize fp ∧
            Unpacks (fatFsize fp) ((fresh m).machine.ram.copyIn cseg l.bytes))) :=
  ⟨mipsStays_iff, pathStays_iff⟩

/-- An LZSS image of eight bytes. -/
theorem packed_image_strays :
    ¬ StaysInside (fun rounds => tryLoadPath rounds [65, 46, 76, 90]) (tpaEnd - cseg)
      [65, 46, 76, 90] (programMachine [76, 90, 32] [76, 90, 83, 83, 0, 0, 0, 1]) := by
  intro inside
  have opening : (callFat (fatFopen 200 [47, 65, 46, 76, 90] FatFile.unused)
      (programMachine [76, 90, 32] [76, 90, 83, 83, 0, 0, 0, 1]).kernel).map
      (fun r => r.1.1) = some 0 := by decide +kernel
  have storing : (tryLoadPath 200 [65, 46, 76, 90] (fresh (programMachine [76, 90, 32]
      [76, 90, 83, 83, 0, 0, 0, 1]))).map (fun r => r.2.machine.ram.strayed) = some true := by
    decide +kernel
  obtain ⟨⟨⟨code, fp⟩, b⟩, opened, rfl⟩ := Option.map_eq_some_iff.mp opening
  obtain ⟨⟨rc, s'⟩, run, strayed⟩ := Option.map_eq_some_iff.mp storing
  obtain ⟨rc', s'', returns, stayed, -⟩ := inside fp b ⟨200, opened⟩
  obtain ⟨-, rfl⟩ := (tryLoadPath_fueled _).unique returns ⟨200, run⟩
  exact Bool.noConfusion (strayed.symm.trans stayed)

end Law

end Ncd15.Bdos
