import Ncd15.Bdos.CurrentDirectory
import Ncd15.Bdos.LoadRun
import Ncd15.Bdos.Search

/-!
# The calls that build a path

The functions of `bdos.c` that hand a path to the driver, with the function that builds the path
as a parameter: the code's one, which stops at 39 characters and says nothing, and the one that
builds the complete path.
-/

namespace Ncd15.Bdos

open Ncd15.Library Ncd15.Fat Ncd15.Xcpm

section Builders

/-- A path from the state, a drive and a name. -/
abbrev PathBuilder := Kernel → UInt8 → List UInt8 → List UInt8

/-- What `build_path` leaves in the buffer of 40 that its callers have. -/
def cutPath : PathBuilder := fun b drive name => (b.buildPath drive b.curUser name 40).getD []

/-- Mount, user prefix, current directory and name in full. -/
def completePath : PathBuilder := fun b drive name =>
  mountPath drive.toNat ++ userPath b.curUser.toNat ++ b.curSubpath ++
    if name.takeWhile (· ≠ 0) = [] then [] else 47 :: name.takeWhile (· ≠ 0)

end Builders

section Calls

variable (build : PathBuilder) (rounds : Nat)

/-- The error of the functions that return a number of bytes. -/
abbrev noBytes : Nat := 0xFFFFFFFF

/-- What runs on a mounted volume only. -/
def mountedThen {α : Type} (failed : α) (act : Kernel → BdosM α) : BdosM α := do
  if !(← ensureMounted) then pure failed else act (← get)

/-- The path of a control block. -/
def fcbPath (b : Kernel) (fcb : Fcb) : List UInt8 := build b (b.fcbDrive fcb) (fcbToName fcb)

/-- `openHandle` with the path given. -/
def openHandleAt (path : List UInt8) (openFile : List UInt8 → FatFile → DriverM (Int × FatFile)) :
    BdosM (Option (Fin fatMaxOpen)) := do
  match ← allocHandle with
  | none => pure none
  | some idx =>
      if (← callFile idx (openFile path)) ≠ 0 then
        dropHandle idx
        pure none
      else pure (some idx)

def dOpenBy (fcb : Fcb) : BdosM (Nat × Fcb) :=
  mountedThen (0xFF, fcb) fun b => do
    match ← openHandleAt (fcbPath build b fcb) (fatFopen rounds) with
    | none => pure (0xFF, fcb)
    | some idx =>
        let h := (← get).fhandles idx
        pure (0, openExtent (stashHandle fcb idx h.generation) (recordCount h.file.fileSize))

def dMakeBy (fcb : Fcb) : BdosM (Nat × Fcb) :=
  mountedThen (0xFF, fcb) fun b => do
    match ← openHandleAt (fcbPath build b fcb) (fatFcreate rounds) with
    | none => pure (0xFF, fcb)
    | some idx =>
        let h := (← get).fhandles idx
        pure (0, openExtent (stashHandle fcb idx h.generation) 0)

def dDelete (fcb : Fcb) : BdosM Nat :=
  mountedThen 0xFF fun b => do
    pure (if (← callFat (fatFunlink rounds (fcbPath build b fcb))) = 0 then 0 else 0xFF)

/-- The second name of a rename, in the place of the first. -/
def newNameFcb (fcb : Fcb) : Fcb := fcb.blit fcbName (fcb.slice 17 11)

def dRename (fcb : Fcb) : BdosM Nat :=
  mountedThen 0xFF fun b => do
    let new := build b (b.fcbDrive fcb) (fcbToName (newNameFcb fcb))
    pure (if (← callFat (fatFrename rounds (fcbPath build b fcb) new)) = 0 then 0 else 0xFF)

def dExtMkdir (name : List UInt8) : BdosM Nat :=
  mountedThen 0xFF fun b => do
    pure (if (← callFat (fatMkdir rounds (build b b.curDrive name))) = 0 then 0 else 0xFF)

def dExtRmdir (name : List UInt8) : BdosM Nat :=
  mountedThen 0xFF fun b => do
    let rc ← callFat (fatRmdir rounds (build b b.curDrive name))
    pure (if rc = 0 then 0 else if rc = -4 then 1 else 0xFF)

/-- The state of the loop of `d_ext_copy`. -/
structure Copying where
  sf : FatFile
  df : FatFile
  copied : Nat

def copyRound (size : Nat) (c : Copying) : DriverM (Copying ⊕ Copying) := do
  if c.copied < size then
    let (n, bytes, sf) ← fatFread rounds c.sf 128
    if n ≤ 0 then pure (.inr { c with sf })
    else
      let (wrote, df) ← fatFwrite rounds c.df bytes
      if wrote ≠ n then pure (.inr { sf, df, copied := noBytes })
      else pure (.inl { sf, df, copied := u32 (c.copied + n.toNat) })
  else pure (.inr c)

def dExtCopy (src dst : List UInt8) : BdosM Nat :=
  mountedThen noBytes fun b => do
    let (code, sf) ← callFat (fatFopen rounds (build b b.curDrive src) FatFile.unused)
    if code ≠ 0 then pure noBytes
    else
      let (code, df) ← callFat (fatFcreate rounds (build b b.curDrive dst) FatFile.unused)
      if code ≠ 0 then pure noBytes
      else
        let c ← callFat (Prog.loop (copyRound rounds sf.fileSize) rounds { sf, df, copied := 0 })
        let _ ← callFat (fatFflush c.df)
        pure c.copied

/-- `d_ext_savefile`; `none` stands for a null pointer. -/
def dExtSavefile (name : List UInt8) (sb : Option (List UInt8)) : BdosM Nat :=
  mountedThen noBytes fun b =>
    match sb with
    | none => pure noBytes
    | some bytes => do
        let (code, fp) ← callFat (fatFcreate rounds (build b b.curDrive name) FatFile.unused)
        if code ≠ 0 then pure noBytes
        else
          let (wrote, fp) ← callFat (fatFwrite rounds fp bytes)
          let _ ← callFat (fatFflush fp)
          pure (if wrote % 2 ^ 32 = bytes.length then 0 else noBytes)

/-- `d_ext_loadfile`, with the bytes stored in the buffer; `none` stands for a null pointer. -/
def dExtLoadfile (name : List UInt8) (lb : Option Nat) : BdosM (Nat × List UInt8) :=
  mountedThen (noBytes, []) fun b => do
    let max := lb.getD 0
    if max = 0 then pure (noBytes, [])
    else
      let (code, fp) ← callFat (fatFopen rounds (build b b.curDrive name) FatFile.unused)
      if code ≠ 0 then pure (noBytes, [])
      else
        let l ← callFat (Prog.loop (loadRound rounds max) rounds { fp, total := 0, bytes := [] })
        pure (l.total, l.bytes)

/-- `readProgram`. -/
def readProgramBy (path : List UInt8) (dst : Nat) : LoadM (Except Int Nat) := do
  let b ← callKernel get
  let (code, fp) ← callKernel
    (callFat (fatFopen rounds (build b b.curDrive path) FatFile.unused))
  if code ≠ 0 then pure (.error (-1))
  else
    note (.loaded path)
    let l ← callKernel (callFat (loadWhole rounds fp))
    modify fun s => s.withRam (s.machine.ram.copyIn dst l.bytes)
    if l.total ≠ fatFsize fp then pure (.error (-3)) else pure (.ok (fatFsize fp))

def Session.withRedir (s : Session) (redir : Redirection) : Session :=
  { s with machine := { s.machine with redir } }

def Session.withWindow (s : Session) (window : Window) : Session :=
  { s with machine := { s.machine with window } }

/-- The opening of `d_ext_redir_begin`: the code and the handle. -/
def redirOpen (path : List UInt8) (append : Bool) (fp : FatFile) : DriverM (Int × FatFile) := do
  if append then
    let (rc, fp) ← fatFopen rounds path fp
    if rc ≠ 0 then fatFcreate rounds path fp
    else
      let (_, fp) ← fatFseek fp fp.fileSize
      pure (0, fp)
  else fatFcreate rounds path fp

/-- `if (redir_active) redir_flush()`, with the handle behind it. -/
def flushPrevious (r : Redirection) : LoadM FatFile :=
  if r.active then redirFlush rounds r else pure r.file

def dExtRedirBegin (name : List UInt8) (append : Bool) : LoadM Nat := do
  if !(← callKernel ensureMounted) then pure 0xFF
  else
    let r := (← get).machine.redir
    let fp ← flushPrevious rounds r
    let b ← callKernel get
    let (rc, fp) ← callKernel (callFat (redirOpen rounds (build b b.curDrive name) append fp))
    let buf := if r.active then [] else r.buf
    if rc ≠ 0 then
      modify fun s => s.withRedir { r with file := fp, buf }
      pure 0xFF
    else
      modify fun s => s.withRedir { active := true, file := fp, buf := [] }
      pure 0

def dExtInrdBegin (name : List UInt8) : LoadM Nat := do
  if !(← callKernel ensureMounted) then pure 0xFF
  else
    let b ← callKernel get
    let (code, fp) ← callKernel
      (callFat (fatFopen rounds (build b b.curDrive name) FatFile.unused))
    if code ≠ 0 then pure 0xFF
    else
      let (n, bytes, _) ← callKernel (callFat (fatFread rounds fp inrdMax))
      let found := if n < 0 then FileRead.failed bytes else FileRead.read bytes
      modify fun s => s.withWindow (inrdBegin s.machine.window found)
      pure (if n < 0 then 0xFF else 0)

def dSearch1By (fcb : Fcb) : SearchM Nat := do
  if !(← inKernel ensureMounted) then pure 0xFF
  else
    modify fun s => { s with pattern := (fcb.slice fcbName 11).map upper }
    let b := (← get).kernel
    match ← inKernel (callFat (fatDiropenPath rounds (build b (b.fcbDrive fcb) []))) with
    | .error _ =>
        modify fun s => { s with active := false }
        pure 0xFF
    | .ok iter =>
        modify fun s => { s with iter }
        emitNext rounds

theorem dOpen_eq (fcb : Fcb) : dOpen rounds fcb = dOpenBy cutPath rounds fcb := rfl

theorem dMake_eq (fcb : Fcb) : dMake rounds fcb = dMakeBy cutPath rounds fcb := rfl

theorem readProgram_eq (path : List UInt8) (dst : Nat) :
    readProgram rounds path dst = readProgramBy cutPath rounds path dst := rfl

theorem dSearch1_eq (fcb : Fcb) : dSearch1 rounds fcb = dSearch1By cutPath rounds fcb := rfl

end Calls

section Desk

/-- What the calls work on: the machine with its log, and the search. -/
structure Desk where
  session : Session
  iter : DirIter
  pattern : List UInt8
  active : Bool

def Desk.kernel (d : Desk) : Kernel := d.session.machine.kernel

/-- A result: a code, with a control block, with a number of bytes and the bytes, or the size of
a program. -/
inductive Outcome
  | code (v : Nat)
  | control (v : Nat) (fcb : Fcb)
  | data (v : Nat) (bytes : List UInt8)
  | image (r : Except Int Nat)

def Outcome.IsError : Outcome → Prop
  | .code v => v ≠ 0
  | .control v _ => v ≠ 0
  | .data v _ => v = noBytes
  | .image r => r.isOk = false

abbrev DeskM := Prog Desk Outcome

def onLoad {α : Type} (view : α → Outcome) (f : LoadM α) : DeskM := fun d =>
  (f d.session).map fun result => (view result.1, { d with session := result.2 })

def onKernel {α : Type} (view : α → Outcome) (f : BdosM α) : DeskM := onLoad view (callKernel f)

def onSearch (f : SearchM Nat) : DeskM := fun d =>
  (f { kernel := d.kernel, iter := d.iter, pattern := d.pattern, active := d.active }).map
    fun result => (.code result.1, {
      session := d.session.withKernel result.2.kernel, iter := result.2.iter
      pattern := result.2.pattern, active := result.2.active })

/-- The calls that act on a path. -/
inductive PathCall
  | openFile (fcb : Fcb)
  | makeFile (fcb : Fcb)
  | delete (fcb : Fcb)
  | rename (fcb : Fcb)
  | search (fcb : Fcb)
  | copy (src dst : List UInt8)
  | save (name : List UInt8) (sb : Option (List UInt8))
  | load (name : List UInt8) (lb : Option Nat)
  | mkdir (name : List UInt8)
  | rmdir (name : List UInt8)
  | redirect (name : List UInt8) (append : Bool)
  | redirectInput (name : List UInt8)
  | loadProgram (path : List UInt8) (dst : Nat)

namespace PathCall

def run (build : PathBuilder) (rounds : Nat) : PathCall → DeskM
  | .openFile fcb => onKernel (fun r => .control r.1 r.2) (dOpenBy build rounds fcb)
  | .makeFile fcb => onKernel (fun r => .control r.1 r.2) (dMakeBy build rounds fcb)
  | .delete fcb => onKernel .code (dDelete build rounds fcb)
  | .rename fcb => onKernel .code (dRename build rounds fcb)
  | .search fcb => onSearch (dSearch1By build rounds fcb)
  | .copy src dst => onKernel (.data · []) (dExtCopy build rounds src dst)
  | .save name sb => onKernel .code (dExtSavefile build rounds name sb)
  | .load name lb => onKernel (fun r => .data r.1 r.2) (dExtLoadfile build rounds name lb)
  | .mkdir name => onKernel .code (dExtMkdir build rounds name)
  | .rmdir name => onKernel .code (dExtRmdir build rounds name)
  | .redirect name append => onLoad .code (dExtRedirBegin build rounds name append)
  | .redirectInput name => onLoad .code (dExtInrdBegin build rounds name)
  | .loadProgram path dst => onLoad .image (readProgramBy build rounds path dst)

/-- The drives and names that a call hands to `build_path`. -/
def names (b : Kernel) : PathCall → List (UInt8 × List UInt8)
  | .openFile fcb | .makeFile fcb | .delete fcb => [(b.fcbDrive fcb, fcbToName fcb)]
  | .rename fcb =>
      [(b.fcbDrive fcb, fcbToName fcb), (b.fcbDrive fcb, fcbToName (newNameFcb fcb))]
  | .search fcb => [(b.fcbDrive fcb, [])]
  | .copy src dst => [(b.curDrive, src), (b.curDrive, dst)]
  | .save name _ | .load name _ | .mkdir name | .rmdir name | .redirect name _
  | .redirectInput name | .loadProgram name _ => [(b.curDrive, name)]

end PathCall

/-- What has to hold of a call: each path is built in full or building it fails, and the call
does what it does with the complete paths, or reports an error and leaves the disk alone. -/
def PathMeets (c : PathCall) (d : Desk) : Prop :=
  (∀ p ∈ c.names d.kernel, d.kernel.buildPath p.1 d.kernel.curUser p.2 40 = none ∨
    d.kernel.buildPath p.1 d.kernel.curUser p.2 40 = some (completePath d.kernel p.1 p.2)) ∧
  ∀ rounds, c.run cutPath rounds d = c.run completePath rounds d ∨
    ∀ r d', c.run cutPath rounds d = some (r, d') →
      r.IsError ∧ d'.kernel.fat.disk = d.kernel.fat.disk

end Desk

section Building

variable {b b' : Kernel} {drive : UInt8} {name : List UInt8}

theorem buildPath_run (low : drive < 16) :
    b.buildPath drive b.curUser name 40 = some ((completePath b drive name).take 39) := by
  have short := length_mountPath_le drive.toNat
  have whole : (mountPath drive.toNat).take (40 - 1) = mountPath drive.toNat :=
    List.take_of_length_le (by omega)
  rw [Kernel.buildPath, whole, if_neg (UInt8.not_le.mpr low), if_neg (by omega)]
  rfl

theorem built_iff (low : drive < 16) :
    (b.buildPath drive b.curUser name 40 = none ∨
        b.buildPath drive b.curUser name 40 = some (completePath b drive name)) ↔
      (completePath b drive name).length ≤ 39 := by
  rw [buildPath_run low]
  simp

theorem cutPath_eq (low : drive < 16) (fits : (completePath b drive name).length ≤ 39) :
    cutPath b drive name = completePath b drive name := by
  rw [cutPath, buildPath_run low, List.take_of_length_le fits]
  rfl

/-- The parts of the state that a path depends on. -/
structure SamePlace (b b' : Kernel) : Prop where
  drive : b'.curDrive = b.curDrive
  user : b'.curUser = b.curUser
  subpath : b'.curSubpath = b.curSubpath

theorem SamePlace.refl (b : Kernel) : SamePlace b b := ⟨rfl, rfl, rfl⟩

theorem ensureMounted_place {found : Bool} (run : ensureMounted b = some (found, b')) :
    SamePlace b b' := by
  obtain ⟨d, mounted, rfl⟩ := ensureMounted_eq_some run
  exact ⟨rfl, rfl, rfl⟩

theorem SamePlace.complete (same : SamePlace b b') :
    completePath b' drive name = completePath b drive name := by
  rw [completePath, completePath, same.user, same.subpath]

theorem SamePlace.names (same : SamePlace b b') (c : PathCall) : c.names b' = c.names b := by
  have fcbDrive (fcb : Fcb) : b'.fcbDrive fcb = b.fcbDrive fcb := by
    rw [Kernel.fcbDrive, Kernel.fcbDrive, same.drive]
  cases c <;> simp only [PathCall.names, fcbDrive, same.drive]

end Building

section Congruence

variable {build build' : PathBuilder} {rounds : Nat} {b : Kernel} {d : Desk} {c : PathCall}

/-- Two builders build the same paths for a call, wherever the volume stands. -/
def Agree (build build' : PathBuilder) (b : Kernel) (c : PathCall) : Prop :=
  ∀ b', SamePlace b b' → ∀ p ∈ c.names b', build b' p.1 p.2 = build' b' p.1 p.2

theorem mountedThen_congr {α : Type} {failed : α} {act act' : Kernel → BdosM α}
    (same : ∀ b', SamePlace b b' → act b' = act' b') :
    mountedThen failed act b = mountedThen failed act' b := by
  refine Prog.bind_congr_run fun found b' mounting => ?_
  cases found with
  | false => rw [if_pos (by decide), if_pos (by decide)]
  | true =>
      rw [if_neg (by decide), if_neg (by decide), Prog.get_bind_run, Prog.get_bind_run,
        same b' (ensureMounted_place mounting)]

theorem onLoad_congr {α : Type} {view : α → Outcome} {f f' : LoadM α}
    (same : f d.session = f' d.session) : onLoad view f d = onLoad view f' d := by
  rw [onLoad, onLoad, same]

theorem onKernel_congr {α : Type} {view : α → Outcome} {f f' : BdosM α}
    (same : f d.kernel = f' d.kernel) : onKernel view f d = onKernel view f' d :=
  onLoad_congr (congrArg _ same)

theorem get_kernel_run (s : Session) : callKernel get s = some (s.machine.kernel, s) := rfl

theorem readProgramBy_congr {s : Session} {path : List UInt8}
    (same : build s.machine.kernel s.machine.kernel.curDrive path =
      build' s.machine.kernel s.machine.kernel.curDrive path) (rounds dst : Nat) :
    readProgramBy build rounds path dst s = readProgramBy build' rounds path dst s := by
  unfold readProgramBy
  rw [Prog.bind_eq_of_run (get_kernel_run s), Prog.bind_eq_of_run (get_kernel_run s), same]

theorem callKernel_place {α : Type} {f : BdosM α} {a : α} {s s' : Session}
    (place : ∀ b b', f b = some (a, b') → SamePlace b b') (run : callKernel f s = some (a, s')) :
    SamePlace s.machine.kernel s'.machine.kernel := by
  obtain ⟨b, inner, rfl⟩ := callKernel_eq_some run
  exact place _ b inner

theorem callFat_place {α : Type} {f : DriverM α} {a : α} {b b' : Kernel}
    (run : callFat f b = some (a, b')) : SamePlace b b' := by
  obtain ⟨d, -, rfl⟩ := callFat_eq_some run
  exact ⟨rfl, rfl, rfl⟩

theorem redirFlush_place {r : Redirection} {fp : FatFile} {s s' : Session}
    (run : redirFlush rounds r s = some (fp, s')) :
    SamePlace s.machine.kernel s'.machine.kernel := by
  unfold redirFlush at run
  split at run
  · obtain ⟨-, rfl⟩ := Prod.mk.inj (Option.some.inj run)
    exact .refl _
  · obtain ⟨result, s₁, written, run⟩ := Prog.bind_eq_some run
    obtain ⟨-, rfl⟩ := Prod.mk.inj (Option.some.inj run)
    exact callKernel_place (fun _ _ => callFat_place) written

theorem dExtInrdBegin_congr {s : Session} {name : List UInt8}
    (same : ∀ b', SamePlace s.machine.kernel b' →
      build b' b'.curDrive name = build' b' b'.curDrive name) (rounds : Nat) :
    dExtInrdBegin build rounds name s = dExtInrdBegin build' rounds name s := by
  refine Prog.bind_congr_run fun found s' mounting => ?_
  cases found with
  | false => rw [if_pos (by decide), if_pos (by decide)]
  | true =>
      have place := callKernel_place (fun _ _ => ensureMounted_place) mounting
      rw [if_neg (by decide), if_neg (by decide), Prog.bind_eq_of_run (get_kernel_run s'),
        Prog.bind_eq_of_run (get_kernel_run s'), same _ place]

theorem SamePlace.trans {b'' : Kernel} {b' : Kernel} (first : SamePlace b b')
    (second : SamePlace b' b'') : SamePlace b b'' :=
  ⟨second.drive.trans first.drive, second.user.trans first.user,
    second.subpath.trans first.subpath⟩

theorem dExtRedirBegin_congr {s : Session} {name : List UInt8} (append : Bool)
    (same : ∀ b', SamePlace s.machine.kernel b' →
      build b' b'.curDrive name = build' b' b'.curDrive name) (rounds : Nat) :
    dExtRedirBegin build rounds name append s = dExtRedirBegin build' rounds name append s := by
  refine Prog.bind_congr_run fun found s₁ mounting => ?_
  cases found with
  | false => rw [if_pos (by decide), if_pos (by decide)]
  | true =>
      have place := callKernel_place (fun _ _ => ensureMounted_place) mounting
      rw [if_neg (by decide), if_neg (by decide), Prog.get_bind_run, Prog.get_bind_run]
      refine Prog.bind_congr_run fun fp s₂ flushed => ?_
      have place' : SamePlace s₁.machine.kernel s₂.machine.kernel := by
        unfold flushPrevious at flushed
        split at flushed
        · exact redirFlush_place flushed
        · obtain ⟨-, rfl⟩ := Prod.mk.inj (Option.some.inj flushed)
          exact .refl _
      rw [Prog.bind_eq_of_run (get_kernel_run s₂), Prog.bind_eq_of_run (get_kernel_run s₂),
        same _ (place.trans place')]

theorem dSearch1By_congr {s : Search} {fcb : Fcb}
    (same : ∀ b', SamePlace s.kernel b' →
      build b' (b'.fcbDrive fcb) [] = build' b' (b'.fcbDrive fcb) []) (rounds : Nat) :
    dSearch1By build rounds fcb s = dSearch1By build' rounds fcb s := by
  refine Prog.bind_congr_run fun found s' mounting => ?_
  cases found with
  | false => rw [if_pos (by decide), if_pos (by decide)]
  | true =>
      have place : SamePlace s.kernel s'.kernel := by
        obtain ⟨⟨found, b⟩, inner, view⟩ := Option.map_eq_some_iff.mp mounting
        obtain ⟨-, rfl⟩ := Prod.mk.inj view
        exact ensureMounted_place inner
      rw [if_neg (by decide), if_neg (by decide), Prog.modify_bind_run, Prog.modify_bind_run,
        Prog.get_bind_run, Prog.get_bind_run]
      dsimp only
      rw [same _ place]

/-- A call depends on its builder only through the paths of its names. -/
theorem PathCall.run_congr (agree : Agree build build' d.kernel c) (rounds : Nat) :
    c.run build rounds d = c.run build' rounds d := by
  have here {b' : Kernel} (same : SamePlace d.kernel b') (drive : UInt8) (name : List UInt8)
      (mem : (drive, name) ∈ c.names b') : build b' drive name = build' b' drive name :=
    agree b' same _ mem
  cases c with
  | openFile fcb | makeFile fcb | delete fcb =>
      refine onKernel_congr (mountedThen_congr fun b' same => ?_)
      have path : fcbPath build b' fcb = fcbPath build' b' fcb :=
        here same _ _ (List.mem_singleton_self _)
      rw [path]
  | rename fcb =>
      refine onKernel_congr (mountedThen_congr fun b' same => ?_)
      have old : fcbPath build b' fcb = fcbPath build' b' fcb :=
        here same _ _ List.mem_cons_self
      rw [old, here same _ _ (List.mem_cons_of_mem _ (List.mem_singleton_self _))]
  | copy src dst =>
      refine onKernel_congr (mountedThen_congr fun b' same => ?_)
      rw [here same _ _ List.mem_cons_self,
        here same _ _ (List.mem_cons_of_mem _ (List.mem_singleton_self _))]
  | save name sb | load name lb | mkdir name | rmdir name =>
      refine onKernel_congr (mountedThen_congr fun b' same => ?_)
      rw [here same _ _ (List.mem_singleton_self _)]
  | search fcb =>
      have paths := dSearch1By_congr (s := {
          kernel := d.kernel, iter := d.iter, pattern := d.pattern, active := d.active })
        (fun b' same => here same _ _ (List.mem_singleton_self _)) rounds
      exact congrArg (Option.map _) paths
  | redirect name append =>
      exact onLoad_congr (dExtRedirBegin_congr append
        (fun b' same => here same _ _ (List.mem_singleton_self _)) rounds)
  | redirectInput name =>
      exact onLoad_congr (dExtInrdBegin_congr
        (fun b' same => here same _ _ (List.mem_singleton_self _)) rounds)
  | loadProgram path dst =>
      exact onLoad_congr (readProgramBy_congr
        (here (.refl _) _ _ (List.mem_singleton_self _)) rounds dst)

end Congruence

section Law

variable {b : Kernel} {c : PathCall} {d : Desk}

theorem fcbDrive_lt (low : b.curDrive < 16) (fcb : Fcb) : b.fcbDrive fcb < 16 := by
  unfold Kernel.fcbDrive
  split
  · exact low
  · have masked : (fcb.get fcbDrv - 1) &&& 0x0F ≤ 0x0F := by
      rw [UInt8.le_iff_toNat_le, UInt8.toNat_and]
      exact Nat.and_le_right
    exact UInt8.lt_of_le_of_lt masked (by decide)

theorem names_low (low : b.curDrive < 16) (c : PathCall) : ∀ p ∈ c.names b, p.1 < 16 := by
  cases c <;> simp [PathCall.names, low, fcbDrive_lt low]

/-- A volume with a directory `D` in which there is a file `AB`. -/
def nestedVolume : Nat → Sector
  | 3 => ((Buffer.zero.blit 0 (68 :: List.replicate 10 32)).blit 11 [0x10]).blit 26 [2, 0]
  | 4 => (((editDirEntry 32 (dotName 2) 0 (editDirEntry 0 (dotName 1) 2 Buffer.zero)).blit 64
      (65 :: 66 :: List.replicate 9 32)).blit 75 [0x20])
  | i => fileVolume 0 i

def nestedDesk (subpath : List UInt8) : Desk :=
  { session := {
      machine := { programMachine [] [] with
        kernel := { fileKernel 0 with
          fat := { Driver.initial nestedVolume 68 with m := fileMount }, curSubpath := subpath } }
      log := [] }
    iter := DirIter.fresh, pattern := [], active := false }

/-- The control block of a file `ABC`. -/
def fcbAbc : Fcb := Buffer.zero.blit fcbName (65 :: 66 :: 67 :: List.replicate 8 32)

/-- `/D` and so many times `/.`. -/
def dottedPath (count : Nat) : List UInt8 := 47 :: 68 :: (List.replicate count [47, 46]).flatten

/-- The code with which BDOS 15 returns. -/
def openCode (build : PathBuilder) (d : Desk) : Option Nat :=
  ((PathCall.openFile fcbAbc).run build 200 d).map fun result =>
    match result.1 with
    | .control v _ => v
    | _ => 0xFF

end Law

end Ncd15.Bdos
