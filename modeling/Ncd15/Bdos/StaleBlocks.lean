import Ncd15.Bdos.SequentialRead

/-!
# Control blocks whose handle was closed

Programs copy control blocks, and so keep some that name a handle which another
copy closed.  A history remembers which allocation opened each handle and which
one filled each control block; a control block stands for the handle it was filled
for as long as the generations have not gone around.
-/

namespace Ncd15.Bdos

open Ncd15.Library Ncd15.Fat

section Calls

/-- The functions that take a control block and may use its handle. -/
inductive FileCall
  | openFile
  | makeFile
  | closeFile
  | readSeq
  | writeSeq
  | readRandom
  | writeRandom

def FileCall.run (rounds : Nat) : FileCall → Fcb → BdosM (Nat × Fcb)
  | openFile => dOpen rounds
  | makeFile => dMake rounds
  | closeFile => dClose
  | readSeq => dReadSeq rounds
  | writeSeq => dWriteSeq rounds
  | readRandom => dReadRandom rounds
  | writeRandom => dWriteRandom rounds

/-- The bytes 16 to 31 are the kernel's. -/
def SamePrivate (first second : Fcb) : Prop :=
  ∀ k < 16, first.get (fcbPriv + k) = second.get (fcbPriv + k)

instance (first second : Fcb) : Decidable (SamePrivate first second) :=
  inferInstanceAs (Decidable (∀ k < 16, _))

/-- What programs do with their control blocks. -/
inductive Action (ι : Type)
  | call (f : FileCall) (i : ι)
  | edit (i : ι) (fcb : Fcb)
  | copy (source target : ι)

/-- The kernel and the control blocks of the programs.  The rest is history:
`allocations` counts the handles given out so far, `openedBy` is the number of the
allocation that opened a handle in use, and `filledBy` the handle and the
allocation that a control block was filled for. -/
structure Programs (ι : Type) where
  kernel : Kernel
  fcbs : ι → Fcb
  allocations : Nat
  openedBy : Fin fatMaxOpen → Option Nat
  filledBy : ι → Option (Fin fatMaxOpen × Nat)

variable {ι : Type} [DecidableEq ι]

namespace Programs

/-- The handle that a call opened. -/
def newlyOpen (before after : Kernel) : Option (Fin fatMaxOpen) :=
  (List.finRange fatMaxOpen).find? fun idx =>
    (after.fhandles idx).inUse && !(before.fhandles idx).inUse

/-- The programs after a call with control block `i`. -/
def after (s : Programs ι) (i : ι) (fcb : Fcb) (b : Kernel) : Programs ι where
  kernel := b
  fcbs := Function.update s.fcbs i fcb
  allocations :=
    if b.nextGeneration = s.kernel.nextGeneration then s.allocations else s.allocations + 1
  openedBy idx :=
    if !(b.fhandles idx).inUse then none
    else if (s.kernel.fhandles idx).inUse then s.openedBy idx
    else some s.allocations
  filledBy :=
    match newlyOpen s.kernel b with
    | none => s.filledBy
    | some idx => Function.update s.filledBy i (some (idx, s.allocations))

/-- One action; a program leaves the private bytes alone. -/
def step (rounds : Nat) (s : Programs ι) : Action ι → Option (Programs ι)
  | .call f i => do
      let ((_, fcb), b) ← f.run rounds (s.fcbs i) s.kernel
      return s.after i fcb b
  | .edit i fcb =>
      if SamePrivate (s.fcbs i) fcb then some { s with fcbs := Function.update s.fcbs i fcb }
      else none
  | .copy source target => some { s with
      fcbs := Function.update s.fcbs target (s.fcbs source)
      filledBy := Function.update s.filledBy target (s.filledBy source) }

def run (rounds : Nat) (actions : List (Action ι)) (s : Programs ι) : Option (Programs ι) :=
  actions.foldlM (step rounds) s

/-- Before the first call no handle is in use and no control block was filled. -/
structure Boot (s : Programs ι) : Prop where
  closed : ∀ idx, (s.kernel.fhandles idx).inUse = false
  first : s.kernel.nextGeneration = 1
  blank : ∀ i, (s.fcbs i).get fcbPriv ≠ 88
  allocations : s.allocations = 0
  openedBy : ∀ idx, s.openedBy idx = none

end Programs

end Calls

section Effects

/-- A kernel whose handles are those of another one. -/
structure SameHandles (b b' : Kernel) : Prop where
  inUse : ∀ idx, (b'.fhandles idx).inUse = (b.fhandles idx).inUse
  generation : ∀ idx, (b'.fhandles idx).generation = (b.fhandles idx).generation
  next : b'.nextGeneration = b.nextGeneration

/-- Handles that are the same but for one. -/
structure OtherHandles (idx : Fin fatMaxOpen) (b b' : Kernel) : Prop where
  inUse : ∀ other, other ≠ idx → (b'.fhandles other).inUse = (b.fhandles other).inUse
  generation : ∀ other, other ≠ idx →
    (b'.fhandles other).generation = (b.fhandles other).generation

/-- The generation after this one; 0 is left out. -/
def nextAfter (generation : UInt8) : UInt8 :=
  if generation + 1 = 0 then 1 else generation + 1

/-- What a call does to the handles and to the private bytes. -/
inductive Effect (fcb : Fcb) (b : Kernel) (fcb' : Fcb) (b' : Kernel) : Prop
  | keeps (same : SameHandles b b') (unfilled : SamePrivate fcb fcb')
  | closed (idx : Fin fatMaxOpen) (others : OtherHandles idx b b')
      (free : (b'.fhandles idx).inUse = false) (next : b'.nextGeneration = b.nextGeneration)
      (cleared : fcb'.get fcbPriv ≠ 88)
  | failed (idx : Fin fatMaxOpen) (others : OtherHandles idx b b')
      (before : (b.fhandles idx).inUse = false) (free : (b'.fhandles idx).inUse = false)
      (next : b'.nextGeneration = nextAfter b.nextGeneration) (unfilled : SamePrivate fcb fcb')
  | opened (idx : Fin fatMaxOpen) (others : OtherHandles idx b b')
      (before : (b.fhandles idx).inUse = false) (used : (b'.fhandles idx).inUse = true)
      (generation : (b'.fhandles idx).generation = b.nextGeneration)
      (next : b'.nextGeneration = nextAfter b.nextGeneration)
      (filled : SamePrivate (stashHandle fcb idx b.nextGeneration) fcb')

theorem SameHandles.refl (b : Kernel) : SameHandles b b :=
  ⟨fun _ => rfl, fun _ => rfl, rfl⟩

theorem SameHandles.trans {b b' b'' : Kernel} (first : SameHandles b b')
    (second : SameHandles b' b'') : SameHandles b b'' where
  inUse idx := (second.inUse idx).trans (first.inUse idx)
  generation idx := (second.generation idx).trans (first.generation idx)
  next := second.next.trans first.next

theorem OtherHandles.trans_same {idx : Fin fatMaxOpen} {b b' b'' : Kernel}
    (first : OtherHandles idx b b') (second : SameHandles b' b'') : OtherHandles idx b b'' where
  inUse other apart := (second.inUse other).trans (first.inUse other apart)
  generation other apart := (second.generation other).trans (first.generation other apart)

theorem SamePrivate.refl (fcb : Fcb) : SamePrivate fcb fcb :=
  fun _ _ => rfl

theorem setHandle_same {b : Kernel} {d : Driver} {idx : Fin fatMaxOpen} {fp : FatFile} :
    SameHandles b (({ b with fat := d } : Kernel).setHandle idx { b.fhandles idx with file := fp })
    where
  inUse other := by
    by_cases self : other = idx
    · subst self
      simp [Kernel.setHandle]
    · simp [Kernel.setHandle, self]
  generation other := by
    by_cases self : other = idx
    · subst self
      simp [Kernel.setHandle]
    · simp [Kernel.setHandle, self]
  next := rfl

theorem setHandle_others (b : Kernel) (idx : Fin fatMaxOpen) (h : FHandle) :
    OtherHandles idx b (b.setHandle idx h) where
  inUse other apart := by simp [Kernel.setHandle, apart]
  generation other apart := by simp [Kernel.setHandle, apart]

section Keeping

variable {b : Kernel} {idx : Fin fatMaxOpen}

theorem callFat_keeps {α : Type} (f : DriverM α) :
    Triple (SameHandles b) (callFat f) fun _ => SameHandles b := by
  intro s same a s' run
  obtain ⟨d, -, rfl⟩ := callFat_eq_some run
  exact ⟨same.inUse, same.generation, same.next⟩

theorem callFile_keeps {α : Type} (f : FatFile → DriverM (α × FatFile)) :
    Triple (SameHandles b) (callFile idx f) fun _ => SameHandles b := by
  intro s same a s' run
  obtain ⟨⟨⟨a', fp⟩, d⟩, -, result⟩ := Option.map_eq_some_iff.mp run
  obtain ⟨rfl, rfl⟩ := Prod.mk.inj result
  exact same.trans setHandle_same

theorem ensureMounted_keeps : Triple (SameHandles b) ensureMounted fun _ => SameHandles b := by
  refine Triple.get_any fun s => Triple.ite (fun _ => Triple.pure fun _ => id) fun _ => ?_
  refine Triple.bind (callFat_keeps fatMount) fun code => ?_
  refine Triple.ite (fun _ => Triple.pure fun _ => id) fun _ => ?_
  exact Triple.bind (Triple.modify fun _ same => ⟨same.inUse, same.generation, same.next⟩)
    fun _ => Triple.pure fun _ => id

theorem deliver_keeps (got : Int) (bytes : List UInt8) :
    Triple (SameHandles b) (deliver got bytes) fun _ => SameHandles b :=
  Triple.modify fun _ same => ⟨same.inUse, same.generation, same.next⟩

theorem flushHandle_keeps : Triple (SameHandles b) (flushHandle idx) fun _ => SameHandles b :=
  Triple.get_any fun _ => Triple.bind (callFat_keeps _) fun _ => Triple.pure fun _ => id

end Keeping

section Records

variable {b : Kernel} (rounds : Nat) (fcb : Fcb)

/-- What holds after a record call that began in `b`. -/
def Recorded (b : Kernel) (fcb : Fcb) (result : Nat × Fcb) (b' : Kernel) : Prop :=
  SameHandles b b' ∧ SamePrivate fcb result.2

theorem recorded_fail (code : Nat) :
    Triple (SameHandles b) (pure (code, fcb)) (Recorded b fcb) :=
  Triple.pure fun _ same => ⟨same, .refl fcb⟩

theorem recorded_position (record : Nat) :
    Triple (SameHandles b) (pure (0, setPosition fcb record)) (Recorded b fcb) :=
  Triple.pure fun _ same => ⟨same, fun _ small => (get_setPosition_priv fcb record small).symm⟩

/-- The two functions that read a record differ in its number. -/
theorem readRecord_recorded (idx : Fin fatMaxOpen) (byteOff record : Nat) :
    Triple (SameHandles b) (do
      let b ← get
      if b.dma.isNone then pure (0xFF, fcb)
      else if (b.fhandles idx).file.fileSize ≤ byteOff then pure (1, fcb)
      else if (← callFile idx fun fp => fatFseek fp byteOff) ≠ 0 then pure (0xFF, fcb)
      else
        let (got, bytes) ← callFile idx fun fp => do
          let (got, bytes, fp) ← fatFread rounds fp 128
          pure ((got, bytes), fp)
        deliver got bytes
        if got ≤ 0 then pure (1, fcb) else pure (0, setPosition fcb record))
      (Recorded b fcb) := by
  refine Triple.get_any fun s => ?_
  refine Triple.ite (fun _ => recorded_fail fcb 0xFF) fun _ => ?_
  refine Triple.ite (fun _ => recorded_fail fcb 1) fun _ => ?_
  refine Triple.bind (callFile_keeps _) fun code => ?_
  refine Triple.ite (fun _ => recorded_fail fcb 0xFF) fun _ => ?_
  refine Triple.bind (callFile_keeps _) fun read => ?_
  refine Triple.bind (deliver_keeps _ _) fun _ => ?_
  exact Triple.ite (fun _ => recorded_fail fcb 1) fun _ => recorded_position fcb _

theorem dReadSeq_recorded : Triple (SameHandles b) (dReadSeq rounds fcb) (Recorded b fcb) := by
  refine Triple.get_any fun s => ?_
  cases s.resolveFcb fcb with
  | none => exact recorded_fail fcb 1
  | some idx => exact readRecord_recorded rounds fcb idx _ _

theorem dReadRandom_recorded :
    Triple (SameHandles b) (dReadRandom rounds fcb) (Recorded b fcb) := by
  refine Triple.get_any fun s => ?_
  cases s.resolveFcb fcb with
  | none => exact recorded_fail fcb 6
  | some idx => exact readRecord_recorded rounds fcb idx _ _

theorem dWriteSeq_recorded : Triple (SameHandles b) (dWriteSeq rounds fcb) (Recorded b fcb) := by
  refine Triple.get_any fun s => ?_
  cases s.resolveFcb fcb with
  | none => exact recorded_fail fcb 0xFF
  | some idx =>
      refine Triple.get_any fun s => ?_
      cases s.dma with
      | none => exact recorded_fail fcb 0xFF
      | some buf =>
          refine Triple.bind (callFile_keeps _) fun code => ?_
          refine Triple.ite (fun _ => recorded_fail fcb 0xFF) fun _ => ?_
          refine Triple.bind (callFile_keeps _) fun wrote => ?_
          refine Triple.ite (fun _ => recorded_fail fcb 0xFF) fun _ => ?_
          refine Triple.get_any fun s => Triple.bind flushHandle_keeps fun _ => ?_
          refine Triple.pure fun _ same => ⟨same, fun k small => ?_⟩
          rw [← get_setPosition_priv fcb (position fcb + 1) small]
          exact (Buffer.get_blit_of_ge _ (by simp [fcbRc, fcbPriv])).symm

theorem dWriteRandom_recorded :
    Triple (SameHandles b) (dWriteRandom rounds fcb) (Recorded b fcb) := by
  refine Triple.get_any fun s => ?_
  cases s.resolveFcb fcb with
  | none => exact recorded_fail fcb 0xFF
  | some idx =>
      refine Triple.get_any fun s => ?_
      cases s.dma with
      | none => exact recorded_fail fcb 0xFF
      | some buf =>
          refine Triple.bind (callFile_keeps _) fun code => ?_
          refine Triple.ite (fun _ => recorded_fail fcb 0xFF) fun _ => ?_
          refine Triple.bind (callFile_keeps _) fun wrote => ?_
          refine Triple.ite (fun _ => recorded_fail fcb 0xFF) fun _ => ?_
          exact Triple.bind flushHandle_keeps fun _ => recorded_position fcb _

end Records

section Opening

variable {b b' : Kernel} {fcb : Fcb}

theorem allocHandle_cases {found : Option (Fin fatMaxOpen)}
    (run : allocHandle b = some (found, b')) :
    (found = none ∧ b' = b) ∨
    ∃ idx, found = some idx ∧ OtherHandles idx b b' ∧ (b.fhandles idx).inUse = false ∧
      (b'.fhandles idx).inUse = true ∧ (b'.fhandles idx).generation = b.nextGeneration ∧
      b'.nextGeneration = nextAfter b.nextGeneration := by
  unfold allocHandle at run
  split at run
  next =>
    obtain ⟨rfl, rfl⟩ := Prod.mk.inj (Option.some.inj run)
    exact .inl ⟨rfl, rfl⟩
  next idx first =>
    obtain ⟨rfl, rfl⟩ := Prod.mk.inj (Option.some.inj run)
    have others := setHandle_others b idx
      { b.fhandles idx with inUse := true, generation := b.nextGeneration }
    refine .inr ⟨idx, rfl, ⟨others.inUse, others.generation⟩, ?_, ?_, ?_, rfl⟩
    · simpa using List.find?_some first
    · simp [Kernel.setHandle]
    · simp [Kernel.setHandle]

/-- Opening a handle takes none, takes one and gives it back, or keeps it. -/
theorem openHandle_cases {openFile : List UInt8 → FatFile → DriverM (Int × FatFile)}
    {found : Option (Fin fatMaxOpen)} (run : openHandle fcb openFile b = some (found, b')) :
    (found = none ∧ SameHandles b b') ∨
    ∃ idx, OtherHandles idx b b' ∧ (b.fhandles idx).inUse = false ∧
      b'.nextGeneration = nextAfter b.nextGeneration ∧
      ((found = none ∧ (b'.fhandles idx).inUse = false) ∨
        (found = some idx ∧ (b'.fhandles idx).inUse = true ∧
          (b'.fhandles idx).generation = b.nextGeneration)) := by
  rw [openHandle, Prog.get_bind_run] at run
  obtain ⟨allocated, b₁, alloc, run⟩ := Prog.bind_eq_some run
  rcases allocHandle_cases alloc with ⟨rfl, rfl⟩ |
    ⟨idx, rfl, others₁, free, used₁, generation₁, next₁⟩
  · obtain ⟨rfl, rfl⟩ := Prod.mk.inj (Option.some.inj run)
    exact .inl ⟨rfl, .refl _⟩
  · obtain ⟨code, b₂, call, run⟩ := Prog.bind_eq_some run
    have same := callFile_keeps (openFile (b.fcbToPath fcb)) b₁ (.refl b₁) code b₂ call
    refine .inr ⟨idx, ?_⟩
    split at run
    next =>
      obtain ⟨u, b₃, drop, run⟩ := Prog.bind_eq_some run
      obtain ⟨rfl, rfl⟩ := Prod.mk.inj (Option.some.inj run)
      obtain ⟨-, rfl⟩ := Prod.mk.inj (Option.some.inj drop)
      have others₃ := setHandle_others b₂ idx { b₂.fhandles idx with inUse := false }
      refine ⟨⟨fun other apart => ?_, fun other apart => ?_⟩, free, same.next.trans next₁,
        .inl ⟨rfl, ?_⟩⟩
      · rw [others₃.inUse other apart, same.inUse, others₁.inUse other apart]
      · rw [others₃.generation other apart, same.generation, others₁.generation other apart]
      · simp [Kernel.setHandle]
    next =>
      obtain ⟨rfl, rfl⟩ := Prod.mk.inj (Option.some.inj run)
      exact ⟨others₁.trans_same same, free, same.next.trans next₁,
        .inr ⟨rfl, (same.inUse idx).trans used₁, (same.generation idx).trans generation₁⟩⟩

/-- What `d_open` and `d_make` do. -/
theorem opening_effect {openFile : List UInt8 → FatFile → DriverM (Int × FatFile)}
    (records : FHandle → Nat) {code : Nat} {fcb' : Fcb}
    (run : (do
      if !(← ensureMounted) then pure (0xFF, fcb)
      else
        match ← openHandle fcb openFile with
        | none => pure (0xFF, fcb)
        | some idx =>
            let h := (← get).fhandles idx
            pure (0, openExtent (stashHandle fcb idx h.generation) (records h)) :
        BdosM (Nat × Fcb)) b = some ((code, fcb'), b')) :
    Effect fcb b fcb' b' := by
  obtain ⟨mounted, b₁, mounting, run⟩ := Prog.bind_eq_some run
  have same := ensureMounted_keeps b (.refl b) mounted b₁ mounting
  split at run
  next =>
    simp only [Prog.pure_run, Option.some.injEq, Prod.mk.injEq] at run
    obtain ⟨⟨-, rfl⟩, rfl⟩ := run
    exact .keeps same (.refl fcb)
  next =>
    obtain ⟨found, b₂, handle, run⟩ := Prog.bind_eq_some run
    have others {idx : Fin fatMaxOpen} (later : OtherHandles idx b₁ b₂) : OtherHandles idx b b₂ :=
      ⟨fun other apart => (later.inUse other apart).trans (same.inUse other),
        fun other apart => (later.generation other apart).trans (same.generation other)⟩
    rcases openHandle_cases handle with ⟨rfl, same₂⟩ |
      ⟨idx, later, free, next, ⟨rfl, free₂⟩ | ⟨rfl, used, generation⟩⟩
    · simp only [Prog.pure_run, Option.some.injEq, Prod.mk.injEq] at run
      obtain ⟨⟨-, rfl⟩, rfl⟩ := run
      exact .keeps (same.trans same₂) (.refl fcb)
    · simp only [Prog.pure_run, Option.some.injEq, Prod.mk.injEq] at run
      obtain ⟨⟨-, rfl⟩, rfl⟩ := run
      exact .failed idx (others later) ((same.inUse idx).symm.trans free) free₂
        (by rw [next, same.next]) (.refl fcb)
    · dsimp only at run
      rw [Prog.get_bind_run] at run
      simp only [Prog.pure_run, Option.some.injEq, Prod.mk.injEq] at run
      obtain ⟨⟨-, rfl⟩, rfl⟩ := run
      rw [generation, same.next]
      exact .opened idx (others later) ((same.inUse idx).symm.trans free) used
        (generation.trans same.next) (by rw [next, same.next])
        fun k small => (get_openExtent_priv _ _ small).symm

theorem dClose_effect {code : Nat} {fcb' : Fcb} (run : dClose fcb b = some ((code, fcb'), b')) :
    Effect fcb b fcb' b' := by
  rw [dClose, Prog.get_bind_run] at run
  cases found : b.resolveFcb fcb with
  | none =>
      rw [found] at run
      simp only [Prog.pure_run, Option.some.injEq, Prod.mk.injEq] at run
      obtain ⟨⟨-, rfl⟩, rfl⟩ := run
      exact .keeps (.refl b) (.refl fcb)
  | some idx =>
      rw [found] at run
      dsimp only at run
      rw [Prog.modify_bind_run] at run
      simp only [Prog.pure_run, Option.some.injEq, Prod.mk.injEq] at run
      obtain ⟨⟨-, rfl⟩, rfl⟩ := run
      refine .closed idx (setHandle_others b idx _) ?_ rfl ?_
      · simp [Kernel.setHandle]
      · rw [Buffer.get_blit_singleton fcb (by decide)]
        simp

/-- Every call has one of the four effects. -/
theorem FileCall.effect {f : FileCall} {rounds code : Nat} {fcb' : Fcb}
    (run : f.run rounds fcb b = some ((code, fcb'), b')) : Effect fcb b fcb' b' := by
  have recorded {g : BdosM (Nat × Fcb)} (keeps : Triple (SameHandles b) g (Recorded b fcb))
      (run : g b = some ((code, fcb'), b')) : Effect fcb b fcb' b' := by
    obtain ⟨same, unfilled⟩ := keeps b (.refl b) _ _ run
    exact .keeps same unfilled
  cases f with
  | openFile => exact opening_effect (fun h => recordCount h.file.fileSize) run
  | makeFile => exact opening_effect (fun _ => 0) run
  | closeFile => exact dClose_effect run
  | readSeq => exact recorded (dReadSeq_recorded rounds fcb) run
  | writeSeq => exact recorded (dWriteSeq_recorded rounds fcb) run
  | readRandom => exact recorded (dReadRandom_recorded rounds fcb) run
  | writeRandom => exact recorded (dWriteRandom_recorded rounds fcb) run

end Opening

section Summary

variable {b b' : Kernel} {fcb fcb' : Fcb}

theorem Effect.next (effect : Effect fcb b fcb' b') :
    b'.nextGeneration = b.nextGeneration ∨ b'.nextGeneration = nextAfter b.nextGeneration := by
  cases effect with
  | keeps same => exact .inl same.next
  | closed idx others free next => exact .inl next
  | failed idx others before free next => exact .inr next
  | opened idx others before used generation next => exact .inr next

/-- A handle in use was so before, or the call opened it. -/
theorem Effect.handle (effect : Effect fcb b fcb' b') {idx : Fin fatMaxOpen}
    (used : (b'.fhandles idx).inUse = true) :
    ((b.fhandles idx).inUse = true ∧
      (b'.fhandles idx).generation = (b.fhandles idx).generation) ∨
    ((b.fhandles idx).inUse = false ∧ (b'.fhandles idx).generation = b.nextGeneration ∧
      b'.nextGeneration = nextAfter b.nextGeneration) := by
  cases effect with
  | keeps same => exact .inl ⟨(same.inUse idx).symm.trans used, same.generation idx⟩
  | closed closing others free =>
      have apart : idx ≠ closing := by
        rintro rfl
        exact absurd used (by simp [free])
      exact .inl ⟨(others.inUse idx apart).symm.trans used, others.generation idx apart⟩
  | failed opening others before free =>
      have apart : idx ≠ opening := by
        rintro rfl
        exact absurd used (by simp [free])
      exact .inl ⟨(others.inUse idx apart).symm.trans used, others.generation idx apart⟩
  | opened opening others before used' generation next =>
      by_cases same : idx = opening
      · subst same
        exact .inr ⟨before, generation, next⟩
      · exact .inl ⟨(others.inUse idx same).symm.trans used, others.generation idx same⟩

/-- The control block keeps its private bytes, loses the magic, or is filled for
the one handle that the call opened. -/
theorem Effect.block (effect : Effect fcb b fcb' b') :
    (Programs.newlyOpen b b' = none ∧ (SamePrivate fcb fcb' ∨ fcb'.get fcbPriv ≠ 88)) ∨
    ∃ idx, Programs.newlyOpen b b' = some idx ∧
      (b.fhandles idx).inUse = false ∧ (b'.fhandles idx).inUse = true ∧
      SamePrivate (stashHandle fcb idx b.nextGeneration) fcb' := by
  have none_ (old : ∀ idx, (b'.fhandles idx).inUse = true → (b.fhandles idx).inUse = true) :
      Programs.newlyOpen b b' = none := by
    apply List.find?_eq_none.mpr
    intro idx _
    cases used : (b'.fhandles idx).inUse with
    | false => simp
    | true => simp [old idx used]
  cases effect with
  | keeps same unfilled =>
      exact .inl ⟨none_ fun idx used => (same.inUse idx).symm.trans used, .inl unfilled⟩
  | closed closing others free next cleared =>
      refine .inl ⟨none_ fun idx used => ?_, .inr cleared⟩
      have apart : idx ≠ closing := by
        rintro rfl
        exact absurd used (by simp [free])
      exact (others.inUse idx apart).symm.trans used
  | failed opening others before free next unfilled =>
      refine .inl ⟨none_ fun idx used => ?_, .inl unfilled⟩
      have apart : idx ≠ opening := by
        rintro rfl
        exact absurd used (by simp [free])
      exact (others.inUse idx apart).symm.trans used
  | opened opening others before used generation next filled =>
      refine .inr ⟨opening, ?_, before, used, filled⟩
      cases found : Programs.newlyOpen b b' with
      | none =>
          have new := List.find?_eq_none.mp found opening (List.mem_finRange opening)
          simp [used, before] at new
      | some idx =>
          have new := List.find?_some found
          simp only [Bool.and_eq_true, Bool.not_eq_true'] at new
          by_cases same : idx = opening
          · rw [same]
          · have old := (others.inUse idx same).symm.trans new.1
            simp [new.2] at old

end Summary

end Effects

section Generations

/-- The generation of the handle that allocation `n` gives out. -/
def generationOf (n : Nat) : UInt8 :=
  UInt8.ofNat (n % 255 + 1)

theorem toNat_generationOf (n : Nat) : (generationOf n).toNat = n % 255 + 1 := by
  rw [generationOf, UInt8.toNat_ofNat']
  omega

theorem generationOf_eq_iff {n m : Nat} :
    generationOf n = generationOf m ↔ n % 255 = m % 255 := by
  rw [← UInt8.toNat_inj, toNat_generationOf, toNat_generationOf]
  omega

theorem nextAfter_generationOf (n : Nat) : nextAfter (generationOf n) = generationOf (n + 1) := by
  have value : (generationOf n + 1).toNat = (n % 255 + 2) % 256 := by
    rw [UInt8.toNat_add, toNat_generationOf]
    rfl
  have wraps : generationOf n + 1 = 0 ↔ n % 255 = 254 := by
    rw [← UInt8.toNat_inj, value]
    simp only [UInt8.toNat_zero]
    omega
  rw [nextAfter, ← UInt8.toNat_inj, toNat_generationOf]
  split
  next wrapped =>
    have last := wraps.mp wrapped
    simp only [UInt8.toNat_one]
    omega
  next more =>
    have other := mt wraps.mpr more
    rw [value]
    omega

theorem nextAfter_ne (generation : UInt8) : nextAfter generation ≠ generation := by
  intro same
  have value := congrArg UInt8.toNat same
  rw [nextAfter] at value
  split at value
  next wrapped =>
    have here := congrArg UInt8.toNat wrapped
    rw [UInt8.toNat_add] at here
    simp only [UInt8.toNat_one, UInt8.toNat_zero] at value here
    omega
  next more =>
    rw [UInt8.toNat_add] at value
    simp only [UInt8.toNat_one] at value
    have := generation.toNat_lt
    omega

end Generations

section Histories

variable {ι : Type}

namespace Programs

/-- A handle in use has the generation of the allocation that opened it. -/
structure OpenedBy (s : Programs ι) (idx : Fin fatMaxOpen) : Prop where
  closed : (s.kernel.fhandles idx).inUse = false → s.openedBy idx = none
  opened : (s.kernel.fhandles idx).inUse = true → ∃ n, s.openedBy idx = some n ∧
    n < s.allocations ∧ (s.kernel.fhandles idx).generation = generationOf n

/-- A control block with the magic names the handle and the generation of the
allocation that filled it. -/
def FilledBy (s : Programs ι) (i : ι) : Prop :=
  (s.fcbs i).get fcbPriv = 88 → ∃ idx n, s.filledBy i = some (idx, n) ∧
    (s.fcbs i).get (fcbPriv + 4) = UInt8.ofNat idx ∧
    (s.fcbs i).get (fcbPriv + 5) = generationOf n ∧
    n < s.allocations ∧ ∀ m, s.openedBy idx = some m → n ≤ m

structure Tracked (s : Programs ι) : Prop where
  next : s.kernel.nextGeneration = generationOf s.allocations
  handles : ∀ idx, s.OpenedBy idx
  blocks : ∀ i, s.FilledBy i

theorem Boot.tracked {s : Programs ι} (boot : Boot s) : Tracked s where
  next := by
    rw [boot.first, boot.allocations]
    rfl
  handles idx := {
    closed := fun _ => boot.openedBy idx
    opened := fun used => by simp [boot.closed idx] at used }
  blocks i magic := absurd magic (boot.blank i)

/-- Control blocks with the same private bytes were filled by the same call. -/
theorem FilledBy.congr {s s' : Programs ι} {i i' : ι} (filled : s.FilledBy i)
    (same : SamePrivate (s.fcbs i) (s'.fcbs i')) (by_ : s'.filledBy i' = s.filledBy i)
    (more : s.allocations ≤ s'.allocations)
    (later : ∀ idx m, s'.openedBy idx = some m → s.openedBy idx = some m ∨ s.allocations ≤ m) :
    s'.FilledBy i' := by
  intro magic
  obtain ⟨idx, n, filledBy, four, five, old, first⟩ := filled ((same 0 (by decide)).trans magic)
  refine ⟨idx, n, by_.trans filledBy, (same 4 (by decide)).symm.trans four,
    (same 5 (by decide)).symm.trans five, by omega, fun m opened => ?_⟩
  rcases later idx m opened with before | after
  · exact first m before
  · omega

section Steps

variable [DecidableEq ι] {s s' : Programs ι} {i : ι} {fcb' : Fcb} {b' : Kernel}

theorem openedBy_after {idx : Fin fatMaxOpen} {m : Nat}
    (opened : (s.after i fcb' b').openedBy idx = some m) :
    s.openedBy idx = some m ∨ s.allocations ≤ m := by
  simp only [after] at opened
  split at opened
  · cases opened
  · split at opened
    · exact .inl opened
    · exact .inr (Option.some.inj opened).le

theorem allocations_after (effect : Effect (s.fcbs i) s.kernel fcb' b') :
    ((s.after i fcb' b').allocations = s.allocations ∧
      b'.nextGeneration = s.kernel.nextGeneration) ∨
    ((s.after i fcb' b').allocations = s.allocations + 1 ∧
      b'.nextGeneration = nextAfter s.kernel.nextGeneration) := by
  rcases effect.next with same | next
  · exact .inl ⟨if_pos same, same⟩
  · exact .inr ⟨if_neg (next ▸ nextAfter_ne _), next⟩

theorem Tracked.after_openedBy (tracked : Tracked s)
    (effect : Effect (s.fcbs i) s.kernel fcb' b') (idx : Fin fatMaxOpen) :
    (s.after i fcb' b').OpenedBy idx where
  closed free := by
    have free' : (b'.fhandles idx).inUse = false := free
    simp [after, free']
  opened used := by
    have used' : (b'.fhandles idx).inUse = true := used
    rcases effect.handle used' with ⟨before, generation⟩ | ⟨before, generation, next⟩
    · obtain ⟨n, openedBy, old, here⟩ := (tracked.handles idx).opened before
      refine ⟨n, by simp [after, used', before, openedBy], ?_, generation.trans here⟩
      rcases allocations_after effect with ⟨count, -⟩ | ⟨count, -⟩ <;> omega
    · refine ⟨s.allocations, by simp [after, used', before], ?_,
        generation.trans tracked.next⟩
      rcases allocations_after effect with ⟨-, same⟩ | ⟨count, -⟩
      · exact absurd (next.symm.trans same) (nextAfter_ne _)
      · omega

theorem Tracked.after_filledBy (tracked : Tracked s)
    (effect : Effect (s.fcbs i) s.kernel fcb' b') (j : ι) : (s.after i fcb' b').FilledBy j := by
  have more : s.allocations ≤ (s.after i fcb' b').allocations := by
    rcases allocations_after effect with ⟨count, -⟩ | ⟨count, -⟩ <;> omega
  by_cases self : j = i
  · subst self
    have here : (s.after j fcb' b').fcbs j = fcb' := Function.update_self ..
    rcases effect.block with ⟨old, same | cleared⟩ | ⟨idx, new, before, used, filled⟩
    · refine (tracked.blocks j).congr (by rwa [here]) ?_ more fun _ _ => openedBy_after
      simp only [after, old]
    · exact fun magic => absurd (here ▸ magic) cleared
    · intro _
      have count : (s.after j fcb' b').allocations = s.allocations + 1 := by
        rcases effect.handle used with ⟨old, -⟩ | ⟨-, -, next⟩
        · simp [before] at old
        · rcases allocations_after effect with ⟨-, same⟩ | ⟨count, -⟩
          · exact absurd (next.symm.trans same) (nextAfter_ne _)
          · exact count
      refine ⟨idx, s.allocations, by simp [after, new], ?_, ?_, by omega, ?_⟩
      · rw [here, ← filled 4 (by decide), get_stashHandle _ _ _ (by decide)]
        rfl
      · rw [here, ← filled 5 (by decide), get_stashHandle _ _ _ (by decide), ← tracked.next]
        rfl
      · intro m opened
        simp [after, used, before] at opened
        omega
  · have there : (s.after i fcb' b').fcbs j = s.fcbs j := Function.update_of_ne self ..
    refine (tracked.blocks j).congr (by rw [there]; exact .refl _) ?_ more
      fun _ _ => openedBy_after
    cases found : newlyOpen s.kernel b' with
    | none => simp [after, found]
    | some idx => simp [after, found, self]

theorem Tracked.after (tracked : Tracked s) (effect : Effect (s.fcbs i) s.kernel fcb' b') :
    Tracked (s.after i fcb' b') where
  next := by
    have here : (s.after i fcb' b').kernel = b' := rfl
    rw [here]
    rcases allocations_after effect with ⟨count, same⟩ | ⟨count, next⟩
    · rw [count, same, tracked.next]
    · rw [count, next, tracked.next, nextAfter_generationOf]
  handles := tracked.after_openedBy effect
  blocks := tracked.after_filledBy effect

theorem Tracked.step (tracked : Tracked s) {rounds : Nat} {action : Action ι}
    (run : s.step rounds action = some s') : Tracked s' := by
  cases action with
  | call f i =>
      obtain ⟨⟨⟨code, fcb'⟩, b'⟩, called, result⟩ := Option.bind_eq_some_iff.mp run
      obtain rfl := Option.some.inj result
      exact tracked.after (FileCall.effect called)
  | edit i fcb' =>
      simp only [Programs.step] at run
      split at run
      next same =>
        obtain rfl := Option.some.inj run
        refine ⟨tracked.next, fun idx => ⟨(tracked.handles idx).closed,
          (tracked.handles idx).opened⟩, fun j => ?_⟩
        refine (tracked.blocks j).congr ?_ rfl le_rfl fun _ _ => .inl
        by_cases self : j = i
        · subst self
          simpa using same
        · simpa [self] using SamePrivate.refl (s.fcbs j)
      next => cases run
  | copy source target =>
      obtain rfl := Option.some.inj run
      refine ⟨tracked.next, fun idx => ⟨(tracked.handles idx).closed,
        (tracked.handles idx).opened⟩, fun j => ?_⟩
      by_cases self : j = target
      · subst self
        exact (tracked.blocks source).congr (by simpa using SamePrivate.refl (s.fcbs source))
          (by simp) le_rfl fun _ _ => .inl
      · exact (tracked.blocks j).congr (by simpa [self] using SamePrivate.refl (s.fcbs j))
          (by simp [self]) le_rfl fun _ _ => .inl

theorem Tracked.run {rounds : Nat} {actions : List (Action ι)} (tracked : Tracked s)
    (run : s.run rounds actions = some s') : Tracked s' := by
  induction actions generalizing s with
  | nil =>
      obtain rfl := Option.some.inj run
      exact tracked
  | cons action actions ih =>
      obtain ⟨s₁, first, rest⟩ := Option.bind_eq_some_iff.mp run
      exact ih (tracked.step first) rest

theorem resolveFcb_eq_some {b : Kernel} {fcb : Fcb} {idx : Fin fatMaxOpen}
    (found : b.resolveFcb fcb = some idx) :
    fcb.get fcbPriv = 88 ∧ (fcb.get (fcbPriv + 4)).toNat = idx ∧
      (b.fhandles idx).inUse = true ∧ (b.fhandles idx).generation = fcb.get (fcbPriv + 5) := by
  unfold Kernel.resolveFcb at found
  split at found
  · cases found
  next magic =>
    split at found
    · dsimp only at found
      split at found
      · cases found
      next used =>
        split at found
        · cases found
        next generation =>
          obtain rfl := Option.some.inj found
          simp only [not_or, not_not, Bool.not_eq_true', Bool.not_eq_false] at magic used generation
          exact ⟨magic.1, rfl, used, generation⟩
    · cases found

/-- A control block stands for a handle only if it was filled for it, and the
handle is open by that allocation or by one that came a multiple of 255 later. -/
theorem resolveFcb_filledBy {rounds : Nat} {actions : List (Action ι)} (boot : Boot s)
    (run : s.run rounds actions = some s') {i : ι} {idx : Fin fatMaxOpen}
    (found : s'.kernel.resolveFcb (s'.fcbs i) = some idx) :
    ∃ n m, s'.filledBy i = some (idx, n) ∧ s'.openedBy idx = some m ∧ n ≤ m ∧
      m < s'.allocations ∧ m % 255 = n % 255 ∧ (s'.allocations ≤ n + 255 → m = n) := by
  have tracked := boot.tracked.run run
  obtain ⟨magic, index, used, generation⟩ := resolveFcb_eq_some found
  obtain ⟨idx', n, filledBy, four, five, old, first⟩ := tracked.blocks i magic
  obtain ⟨m, openedBy, recent, here⟩ := (tracked.handles idx).opened used
  obtain rfl : idx' = idx := by
    have small : idx'.val < 16 := idx'.isLt
    rw [four, UInt8.toNat_ofNat'] at index
    exact Fin.ext (by omega)
  have ordered := first m openedBy
  have same : m % 255 = n % 255 := generationOf_eq_iff.mp (by rw [← here, generation, five])
  exact ⟨n, m, filledBy, openedBy, ordered, recent, same, by omega⟩

end Steps

end Programs

end Histories

section Wrap

/-- The volume of `fileVolume` with an empty file `B` beside `A`. -/
def twoFiles : Nat → Sector :=
  Function.update (fileVolume 5) 3
    (((fileVolume 5 3).blit 32 (66 :: List.replicate 10 32)).blit 43 [0x20])

/-- Control blocks for `A`, for `B`, for a copy, and one with a blank name, which is
never found. -/
def fourBlocks : Programs (Fin 4) where
  kernel := { fileKernel 5 with fat := { Driver.initial twoFiles 68 with m := fileMount } }
  fcbs i := match i with
    | 0 => fcbA
    | 1 => Buffer.zero.blit fcbName (66 :: List.replicate 10 32)
    | 2 => Buffer.zero
    | 3 => Buffer.zero.blit fcbName (List.replicate 11 32)
  allocations := 0
  openedBy _ := none
  filledBy _ := none

theorem fourBlocks_boot : fourBlocks.Boot where
  closed _ := rfl
  first := rfl
  blank := by decide
  allocations := rfl
  openedBy _ := rfl

/-- `A` is opened, its control block copied, the file closed; after 254 opens that
fail, `B` is opened. -/
def goAround : List (Action (Fin 4)) :=
  [.call .openFile 0, .copy 0 2, .call .closeFile 0] ++ List.replicate 254 (.call .openFile 3) ++
    [.call .openFile 1]

/-- The copy of the control block of `A` stands for the handle of `B`. -/
theorem staleBlock_reaches_other : ∃ s s' : Programs (Fin 4), s.Boot ∧
    s.run 200 goAround = some s' ∧ s'.filledBy 2 = some (0, 0) ∧
    s'.kernel.resolveFcb (s'.fcbs 2) = some 0 ∧ s'.openedBy 0 = some 255 ∧
    (s'.kernel.fhandles 0).file.fileSize = 0 := by
  have ends : (fourBlocks.run 200 goAround).map (fun s' => (s'.filledBy 2,
      s'.kernel.resolveFcb (s'.fcbs 2), s'.openedBy 0, (s'.kernel.fhandles 0).file.fileSize)) =
      some (some (0, 0), some 0, some 255, 0) := by
    decide +kernel
  obtain ⟨s', run, result⟩ := Option.map_eq_some_iff.mp ends
  simp only [Prod.mk.injEq] at result
  exact ⟨fourBlocks, s', fourBlocks_boot, run, result⟩

/-- A control block that is used before the generations go around. -/
theorem resolveFcb_filledBy_open : ∃ s' : Programs (Fin 4),
    fourBlocks.run 200 [.call .openFile 0, .copy 0 2] = some s' ∧
    ∃ n m, s'.filledBy 2 = some (0, n) ∧ s'.openedBy 0 = some m ∧ m = n := by
  have ends : (fourBlocks.run 200 [.call .openFile 0, .copy 0 2]).map (fun s' =>
      (s'.kernel.resolveFcb (s'.fcbs 2), s'.allocations)) = some (some 0, 1) := by
    decide +kernel
  obtain ⟨s', run, result⟩ := Option.map_eq_some_iff.mp ends
  obtain ⟨found, count⟩ := Prod.mk.inj result
  obtain ⟨n, m, filledBy, openedBy, -, -, -, near⟩ :=
    Programs.resolveFcb_filledBy fourBlocks_boot run found
  exact ⟨s', run, n, m, filledBy, openedBy, near (by omega)⟩

end Wrap

end Ncd15.Bdos
