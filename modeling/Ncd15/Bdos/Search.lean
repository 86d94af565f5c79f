import Ncd15.Bdos.Handles
import Ncd15.Fat.WalkEnds

/-!
# Search first and search next

BDOS 17 and 18 over one directory walk that is kept between the calls.  A walk that reads no
link from a stale buffer delivers the matching entries in order, each once.
-/

namespace Ncd15.Bdos

open Ncd15.Library Ncd15.Fat

section Source

/-- The kernel, and `search_iter`, `search_pattern` and `search_active`. -/
structure Search where
  kernel : Kernel
  iter : DirIter
  pattern : List UInt8
  active : Bool

abbrev SearchM (α : Type) := Prog Search α

def inKernel {α : Type} (f : BdosM α) : SearchM α := fun s =>
  (f s.kernel).map fun result => (result.1, { s with kernel := result.2 })

/-- The record of 32 bytes that an entry is shown as. -/
def direntRecord (de : Dirent) : List UInt8 :=
  0 :: (List.range 11).map (fun i => de.name.getD i 0) ++
    [0, 0, 0, UInt8.ofNat (recordCount de.fileSize % 128)] ++ List.replicate 16 0

def emitDirentToDma (de : Dirent) : SearchM Nat := do
  match (← get).kernel.dma with
  | none => pure 0xFF
  | some buf =>
      modify fun s => { s with kernel := { s.kernel with
        dma := some (buf.blit 0 (direntRecord de)) } }
      pure 0

/-- What both functions do with `fat_search_next`; `d_searchN` finds the flag set. -/
def emitNext (rounds : Nat) : SearchM Nat := do
  let s ← get
  let (result, iter) ← inKernel (callFat (fatSearchNext rounds s.iter s.pattern))
  modify fun s => { s with iter }
  match result with
  | .error _ =>
      modify fun s => { s with active := false }
      pure 0xFF
  | .ok found =>
      modify fun s => { s with active := true }
      emitDirentToDma found.de

/-- The directory of a control block. -/
def Kernel.searchPath (b : Kernel) (fcb : Fcb) : List UInt8 :=
  (b.buildPath (b.fcbDrive fcb) b.curUser [] 40).getD []

def dSearch1 (rounds : Nat) (fcb : Fcb) : SearchM Nat := do
  if !(← inKernel ensureMounted) then pure 0xFF
  else
    modify fun s => { s with pattern := (fcb.slice fcbName 11).map upper }
    let path := (← get).kernel.searchPath fcb
    match ← inKernel (callFat (fatDiropenPath rounds path)) with
    | .error _ =>
        modify fun s => { s with active := false }
        pure 0xFF
    | .ok iter =>
        modify fun s => { s with iter }
        emitNext rounds

def dSearchN (rounds : Nat) : SearchM Nat := do
  if !(← get).active then pure 0xFF else emitNext rounds

end Source

section Sifting

variable {d : Driver} {rounds : Nat}

/-- What `fat_search_next` returns at: the end, or an entry that matches. -/
def kept (pattern : List UInt8) (entry : Except Int (Slot × Dirent)) : Bool :=
  match entry with
  | .error _ => true
  | .ok (_, de) => !hasAttr de.attr attrVolid && fatMatch83 de.name pattern

theorem fatSearchNext_sift (rounds : Nat) (it : DirIter) (pattern : List UInt8) :
    fatSearchNext rounds it pattern =
      sift (fatDirnext rounds) (fun result => kept pattern (report result)) rounds it := by
  have round : searchNextRound rounds pattern =
      siftRound (fatDirnext rounds) fun result => kept pattern (report result) := by
    funext it
    refine congrArg (fatDirnext rounds it >>= ·) (funext fun result => ?_)
    obtain ⟨result, it⟩ := result
    cases result with
    | error code => rfl
    | ok found =>
        simp only [report, kept]
        by_cases label : hasAttr found.de.attr attrVolid = true
        · simp [label]
        · by_cases same : fatMatch83 found.de.name pattern = true <;> simp [label, same]
  rw [fatSearchNext, round]
  rfl

theorem fatSearchNext_fueled (it : DirIter) (pattern : List UInt8) :
    Fueled fun rounds => fatSearchNext rounds it pattern := by
  simp only [fatSearchNext_sift]
  have round (it : DirIter) : Fueled fun rounds =>
      siftRound (fatDirnext rounds) (fun result => kept pattern (report result)) it :=
    .bind (fatDirnext_fueled it) fun _ => .const _
  exact Fueled.loop round it

theorem length_listing_le (disk : Nat → Sector) (lfn : LfnBuf) (slots : List Slot) :
    (listing disk lfn slots).length ≤ slots.length := by
  fun_induction listing disk lfn slots <;> simp <;> omega

/-- What a search over a walk of the directory still has to deliver. -/
def Seeking (d : Driver) (rounds : Nat) (pattern : List UInt8)
    (values : List (Except Int (Slot × Dirent))) (it : DirIter) (d' : Driver) : Prop :=
  ∃ all, d.Left rounds all it d' ∧ all.length < rounds ∧ all.filter (kept pattern) = values

theorem fatSearchNext_drains (readable : Readable d) (rounds : Nat) (pattern : List UInt8) :
    Drains (fun it => fatSearchNext rounds it pattern) report (.error 1)
      (Seeking d rounds pattern) := by
  have sifted : (fun it => fatSearchNext rounds it pattern) =
      sift (fatDirnext rounds) (fun result => kept pattern (report result)) rounds :=
    funext fun it => fatSearchNext_sift rounds it pattern
  rw [sifted]
  exact (fatDirnext_drains readable rounds).sift (fun _ => rfl) rfl rounds

end Sifting

section Delivery

variable {α : Type} {d : Driver} {rounds : Nat} {s s' : Search}

theorem inKernel_run {f : BdosM α} {a : α} {b : Kernel} (run : f s.kernel = some (a, b)) :
    inKernel f s = some (a, { s with kernel := b }) := by
  rw [inKernel, run]
  rfl

theorem inKernel_fueled {f : Nat → BdosM α} (fueled : Fueled f) :
    Fueled fun rounds => inKernel (f rounds) := by
  rintro rounds rounds' le s ⟨a, s'⟩ run
  obtain ⟨⟨a', b⟩, inner, same⟩ := Option.map_eq_some_iff.mp run
  obtain ⟨rfl, rfl⟩ := Prod.mk.inj same
  exact inKernel_run (fueled le _ _ inner)

theorem emitNext_fueled : Fueled emitNext :=
  .bind (.const _) fun _ => .bind (inKernel_fueled (callFat_fueled (fatSearchNext_fueled _ _)))
    fun _ => .const _

theorem dSearch1_fueled (fcb : Fcb) : Fueled fun rounds => dSearch1 rounds fcb := by
  refine .bind (.const _) fun _ => .ite (.const _) (.bind (.const _) fun _ => .bind (.const _)
    fun s => .bind (inKernel_fueled (callFat_fueled (fatDiropenPath_fueled _))) fun opened => ?_)
  cases opened with
  | error code => exact .const _
  | ok iter => exact .bind (.const _) fun _ => emitNext_fueled

/-- What the caller finds behind a call. -/
def shown (code : Nat) (s : Search) : Option (List UInt8) :=
  if code = 0 then s.kernel.dma.map (·.slice 0 32) else none

theorem length_direntRecord (de : Dirent) : (direntRecord de).length = 32 := by
  simp [direntRecord]

theorem emitDirentToDma_run (s : Search) (de : Dirent) (dma : s.kernel.dma.isSome) :
    ∃ s', emitDirentToDma de s = some (0, s') ∧ shown 0 s' = some (direntRecord de) ∧
      s'.iter = s.iter ∧ s'.pattern = s.pattern ∧ s'.active = s.active ∧
      s'.kernel.fat = s.kernel.fat ∧ s'.kernel.dma.isSome := by
  obtain ⟨buf, here⟩ := Option.isSome_iff_exists.mp dma
  refine ⟨{ s with kernel := { s.kernel with dma := some (buf.blit 0 (direntRecord de)) } },
    ?_, ?_, rfl, rfl, rfl, rfl, rfl⟩
  · rw [emitDirentToDma, Prog.get_bind_run, here]
    rfl
  · have whole := Buffer.slice_blit_self buf 0 (direntRecord de) (by simp [length_direntRecord])
    rw [length_direntRecord] at whole
    exact congrArg some whole

/-- What the calls of a search still have to deliver. -/
structure Search.Left (d : Driver) (rounds : Nat) (pattern : List UInt8)
    (entries : List (Slot × Dirent)) (s : Search) : Prop where
  dma : s.kernel.dma.isSome
  same : s.pattern = pattern
  walk : if s.active then Seeking d rounds pattern (entries.map .ok) s.iter s.kernel.fat
    else entries = []

variable {pattern : List UInt8} {entries : List (Slot × Dirent)}

theorem emitNext_run (readable : Readable d) (dma : s.kernel.dma.isSome)
    (same : s.pattern = pattern)
    (seeking : Seeking d rounds pattern (entries.map .ok) s.iter s.kernel.fat) :
    ∃ code s', emitNext rounds s = some (code, s') ∧
      shown code s' = entries.head?.map (fun entry => direntRecord entry.2) ∧
      Search.Left d rounds pattern entries.tail s' := by
  have drains := fatSearchNext_drains readable rounds pattern
  subst same
  unfold emitNext
  cases entries with
  | nil =>
      obtain ⟨⟨result, it⟩, d', run, seen, -⟩ := drains.done seeking
      obtain ⟨code, rfl⟩ : ∃ code, result = .error code := by
        cases result with
        | error code => exact ⟨code, rfl⟩
        | ok found => cases seen
      rw [Prog.get_bind_run, Prog.bind_eq_of_run (inKernel_run (callFat_run run))]
      exact ⟨_, _, rfl, rfl, dma, rfl, rfl⟩
  | cons entry rest =>
      obtain ⟨⟨result, it⟩, d', run, seen, left⟩ := drains.more seeking
      obtain ⟨found, rfl⟩ : ∃ found, result = .ok found := by
        cases result with
        | error code => cases seen
        | ok found => exact ⟨found, rfl⟩
      have name : found.de = entry.2 := congrArg Prod.snd (Except.ok.inj seen)
      rw [Prog.get_bind_run, Prog.bind_eq_of_run (inKernel_run (callFat_run run))]
      obtain ⟨s', emit, record, iter, pattern, active, fat, dma'⟩ := emitDirentToDma_run
        { kernel := { s.kernel with fat := d' }, iter := it, pattern := s.pattern, active := true }
        found.de dma
      refine ⟨0, s', emit, by rw [record, name]; rfl, dma', pattern, ?_⟩
      rw [active, if_pos rfl, iter, fat]
      exact left

/-- A call of BDOS 18, and what its caller finds. -/
def nextRecord (rounds : Nat) (_ : Unit) : SearchM (Option (List UInt8) × Unit) := do
  let code ← dSearchN rounds
  pure (shown code (← get), ())

/-- BDOS 17, and then BDOS 18 so many times. -/
def searchRun (rounds : Nat) (fcb : Fcb) (count : Nat) : SearchM (List (Option (List UInt8))) := do
  let code ← dSearch1 rounds fcb
  let first := shown code (← get)
  let rest ← calls (nextRecord rounds) count ()
  pure (first :: rest.map Prod.fst)

theorem searchRun_fueled (fcb : Fcb) (count : Nat) :
    Fueled fun rounds => searchRun rounds fcb count := by
  have next (u : Unit) : Fueled fun rounds => nextRecord rounds u :=
    .bind (.bind (.const _) fun _ => .ite (.const _) emitNext_fueled) fun _ => .const _
  have more (count : Nat) : Fueled fun rounds => calls (nextRecord rounds) count () := by
    induction count with
    | zero => exact .const _
    | succ count ih => exact .bind (next ()) fun _ => .bind ih fun _ => .const _
  exact .bind (dSearch1_fueled fcb) fun _ => .bind (.const _) fun _ =>
    .bind (more count) fun _ => .const _

theorem nextRecord_run {code : Nat} {s s' : Search} {rounds : Nat} (active : s.active = true)
    (run : emitNext rounds s = some (code, s')) :
    nextRecord rounds () s = some ((shown code s', ()), s') := by
  have next : dSearchN rounds s = some (code, s') := by
    rw [dSearchN, Prog.get_bind_run, if_neg (by simp [active])]
    exact run
  rw [nextRecord, Prog.bind_eq_of_run next]
  rfl

theorem nextRecord_drains (readable : Readable d) (rounds : Nat) (pattern : List UInt8) :
    Drains (nextRecord rounds) Prod.fst none fun values _ s =>
      ∃ entries, Search.Left d rounds pattern entries s ∧
        entries.map (fun entry => some (direntRecord entry.2)) = values where
  more := by
    rintro value values _ s ⟨entries, left, listed⟩
    obtain ⟨entry, rest, rfl, rfl, rfl⟩ := List.map_eq_cons_iff.mp listed
    have active : s.active = true := by
      by_contra off
      have walk := left.walk
      rw [if_neg off] at walk
      cases walk
    have walk := left.walk
    rw [if_pos active] at walk
    obtain ⟨code, s', run, record, left'⟩ := emitNext_run readable left.dma left.same walk
    exact ⟨(shown code s', ()), s', nextRecord_run active run, record, rest, left', rfl⟩
  done := by
    rintro _ s ⟨entries, left, listed⟩
    obtain rfl := List.map_eq_nil_iff.mp listed
    by_cases active : s.active = true
    · have walk := left.walk
      rw [if_pos active] at walk
      obtain ⟨code, s', run, record, left'⟩ := emitNext_run readable left.dma left.same walk
      exact ⟨(shown code s', ()), s', nextRecord_run active run, record, [], left', rfl⟩
    · refine ⟨(none, ()), s, ?_, rfl, [], left, rfl⟩
      rw [nextRecord, Prog.bind_eq_of_run (by
        rw [dSearchN, Prog.get_bind_run, if_pos (by simpa using active)]
        rfl)]
      rfl

end Delivery

section Law

variable {rounds : Nat} {fcb : Fcb} {s : Search} {it : DirIter} {b : Kernel} {lbas : List Nat}

/-- A name of 11 characters matches: a question mark stands for any character. -/
def Matches (pattern name : List UInt8) : Prop :=
  ∀ i < 11, pattern.getD i 0 = 63 ∨ pattern.getD i 0 = name.getD i 0

instance (pattern name : List UInt8) : Decidable (Matches pattern name) :=
  inferInstanceAs (Decidable (∀ i < 11, _))

/-- The entries of a directory that a search is to show. -/
def matching (disk : Nat → Sector) (lbas : List Nat) (pattern : List UInt8) : List Dirent :=
  ((liveEntries disk (dirSlots lbas)).map Prod.snd).filter fun de => Matches pattern de.name

/-- The directory that BDOS 17 opens, and the kernel behind this. -/
def Search.Opens (s : Search) (fcb : Fcb) (it : DirIter) (b : Kernel) : Prop :=
  ∃ rounds b₀, ensureMounted s.kernel = some (true, b₀) ∧
    callFat (fatDiropenPath rounds (b₀.searchPath fcb)) b₀ = some (.ok it, b)

/-- However often BDOS 18 is called behind BDOS 17, the calls show the records of the matching
entries in order, each once, and then an error. -/
def Search.Delivers (s : Search) (fcb : Fcb) (b : Kernel) (lbas : List Nat) : Prop :=
  ∀ count, ∃ s', Returns (fun rounds => searchRun rounds fcb count) s
    (drained none ((matching b.fat.disk lbas ((fcb.slice fcbName 11).map upper)).map fun de =>
      some (direntRecord de)) (count + 1)) s'

theorem fatMatch83_iff {pattern name : List UInt8} (width : pattern.length = 11)
    (width' : name.length = 11) : fatMatch83 name pattern = true ↔ Matches pattern name := by
  simp only [fatMatch83, List.all_eq_true, List.mem_iff_getElem, List.length_zip, width, width',
    Nat.min_self, Matches]
  constructor
  · intro all i inside
    have here := all _ ⟨i, inside, rfl⟩
    simpa [width, width', inside] using here
  · rintro all _ ⟨i, inside, rfl⟩
    have here := all i inside
    simpa [width, width', inside] using here

theorem mem_liveEntries {disk : Nat → Sector} {slots : List Slot} {entry : Slot × Dirent}
    (mem : entry ∈ liveEntries disk slots) :
    hasAttr entry.2.attr attrVolid = false ∧ entry.2.name.length = 11 := by
  obtain ⟨slot, inside, rfl⟩ := List.mem_map.mp mem
  have live := (List.mem_filter.mp inside).2
  simp only [ne_eq, decide_eq_true_eq] at live
  have isEntry : hasAttr ((disk slot.lba).get (slot.off + 11)) attrVolid = false := by
    simpa using live.2
  exact ⟨isEntry, Buffer.length_slice _ _ _⟩

/-- The entries that match, with their locations. -/
def matchingEntries (disk : Nat → Sector) (lbas : List Nat) (pattern : List UInt8) :
    List (Slot × Dirent) :=
  (liveEntries disk (dirSlots lbas)).filter fun entry => Matches pattern entry.2.name

theorem matching_eq (disk : Nat → Sector) (lbas : List Nat) (pattern : List UInt8) :
    (matchingEntries disk lbas pattern).map Prod.snd = matching disk lbas pattern := by
  rw [matching, List.filter_map, matchingEntries]
  rfl

theorem seeking_start {d : Driver} (pattern : List UInt8) (readable : Readable d)
    (directory : d.Directory it lbas) (safe : d.Safe it) (enough : 17 * lbas.length ≤ rounds)
    (width : pattern.length = 11) :
    Seeking d rounds pattern ((matchingEntries d.disk lbas pattern).map .ok) it d := by
  obtain ⟨rest, standing, left, less⟩ := directory.standing readable
  have listed := listing_entries d.disk LfnBuf.clear (dirSlots lbas)
  refine ⟨(liveEntries d.disk (dirSlots lbas)).map .ok,
    ⟨⟨rfl, rfl, safe⟩, rest, standing, by omega, ?_⟩, ?_, ?_⟩
  · rw [left, ← listed, List.map_map]
    rfl
  · have short := length_listing_le d.disk LfnBuf.clear (dirSlots lbas)
    rw [List.length_map, ← listed, List.length_map]
    rw [DirIter.work, left] at less
    omega
  · rw [List.filter_map]
    refine congrArg _ (List.filter_congr fun entry mem => ?_)
    obtain ⟨live, width'⟩ := mem_liveEntries mem
    have same := fatMatch83_iff width width'
    simp only [Function.comp_apply, kept, live, Bool.not_false, Bool.true_and]
    exact Bool.eq_iff_iff.mpr (same.trans decide_eq_true_iff.symm)

/-- The volume of the split directory, which is called `D` in the root. -/
def searchVolume : Nat → Sector
  | 3 => (((smallVolume 3).blit 32 (68 :: List.replicate 10 32)).blit 43 [0x10]).blit 58 [5, 0]
  | i => splitVolume i

/-- A kernel with a current directory, and no search yet. -/
def searchOn (d : Driver) (subpath : List UInt8) : Search :=
  { kernel := { fat := d, mounted := true, curDrive := 0, curUser := 0, curSubpath := subpath
                fhandles := fun _ => { inUse := false, generation := 0, file := FatFile.unused }
                nextGeneration := 1, dma := some Buffer.zero }
    iter := DirIter.fresh, pattern := [], active := false }

/-- The pattern that any name matches. -/
def fcbAny : Fcb := Buffer.zero.blit fcbName (List.replicate 11 63)

deriving instance DecidableEq for LfnBuf, DirIter

/-- What opening the directory `D` leaves. -/
def openedOn (d : Driver) : Option ((Option DirIter × Mount × Nat) × Nat × Nat × Nat) :=
  (callFat (fatDiropenPath 40 [47, 68]) (searchOn d [47, 68]).kernel).map fun r =>
    ((r.1.toOption, r.2.fat.m, r.2.fat.blk.capacity), smallMount.link r.2.fat.disk 5,
      smallMount.link r.2.fat.disk 6, (matching r.2.fat.disk ([5, 6].flatMap smallMount.clusterLbas)
        ((fcbAny.slice fcbName 11).map upper)).length)

theorem shown_all {entries : List Dirent} {count : Nat} (enough : count ≤ entries.length) :
    (drained none (entries.map fun de => some (direntRecord de)) count).all Option.isSome =
      true := by
  rw [drained, List.take_append_of_le_length (by rwa [List.length_map])]
  refine List.all_eq_true.mpr fun record mem => ?_
  obtain ⟨de, -, rfl⟩ := List.mem_map.mp (List.mem_of_mem_take mem)
  rfl

end Law

end Ncd15.Bdos
