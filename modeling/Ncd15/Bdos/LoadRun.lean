import Ncd15.Bdos.SequentialRead
import Ncd15.Fat.FileEnds
import Ncd15.Xcpm.ScratchWindow

/-!
# Loading and running programs

BDOS 113 with the three candidates that it tries.  A file is read into the transient program
area, and a `.MIP` image is started there; this port cannot run the other kinds.  The value
that a program returns is taken for the success of loading it.
-/

namespace Ncd15.Bdos

open Ncd15.Library Ncd15.Fat Ncd15.Xcpm

section Memory

/-- The symbols of the linker script. -/
abbrev tpaBase : Nat := 0x0ED40000
abbrev tpaEnd : Nat := 0x0EF80000
abbrev ramEnd : Nat := 0x0F000000

/-- Memory by its addresses, and whether a store of the loader has been outside the transient
program area. -/
structure Ram where
  byte : Nat → UInt8
  strayed : Bool

namespace Ram

def store (ram : Ram) (addr : Nat) (c : UInt8) : Ram :=
  { byte := Function.update ram.byte addr c
    strayed := ram.strayed || !(tpaBase ≤ addr && addr < tpaEnd) }

/-- A loop that stores `value i` at `target i` for some `i` in turn. -/
def storeAll (ram : Ram) (target : Nat → Nat) (value : Ram → Nat → UInt8) (indices : List Nat) :
    Ram :=
  indices.foldl (fun ram i => ram.store (target i) (value ram i)) ram

def copyIn (ram : Ram) (addr : Nat) (bytes : List UInt8) : Ram :=
  ram.storeAll (fun i => u32 (addr + i)) (fun _ i => bytes.getD i 0) (List.range bytes.length)

end Ram

end Memory

section Source

/-- The output redirection: `redir_active`, `redir_file`, and `redir_buf` up to `redir_buf_n`. -/
structure Redirection where
  active : Bool
  file : FatFile
  buf : List UInt8

/-- What the loader works on; the header of redirected input lies in the window. -/
structure Machine where
  kernel : Kernel
  redir : Redirection
  window : Window
  ram : Ram

/-- A candidate whose file has been opened to be read into memory, or whose program has been
started. -/
inductive LoadEvent
  | loaded (path : List UInt8)
  | started (path : List UInt8)
  deriving DecidableEq

/-- A machine, and what has been loaded and started on it. -/
structure Session where
  machine : Machine
  log : List LoadEvent

namespace Session

def withKernel (s : Session) (b : Kernel) : Session :=
  { s with machine := { s.machine with kernel := b } }

def withRam (s : Session) (ram : Ram) : Session :=
  { s with machine := { s.machine with ram } }

@[simp] theorem log_withKernel (s : Session) (b : Kernel) : (s.withKernel b).log = s.log := rfl

@[simp] theorem log_withRam (s : Session) (ram : Ram) : (s.withRam ram).log = s.log := rfl

end Session

abbrev LoadM (α : Type) := Prog Session α

/-- A program: for its command tail what it returns, and the machine behind it. -/
abbrev Program := List UInt8 → Machine → Int × Machine

def callKernel {α : Type} (f : BdosM α) : LoadM α := fun s =>
  (f s.machine.kernel).map fun result => (result.1, s.withKernel result.2)

def note (event : LoadEvent) : LoadM Unit := modify fun s => { s with log := s.log ++ [event] }

/-- The value of a word as an `int`. -/
def asInt (v : Int) : Int := if 2 ^ 31 ≤ v then v - 2 ^ 32 else v

/-- Where the loop of the loaders stands: the handle, `got_total`, and all bytes stored from
`dst` on. -/
structure Loading where
  fp : FatFile
  total : Nat
  bytes : List UInt8

def loadRound (rounds size : Nat) (l : Loading) : DriverM (Loading ⊕ Loading) := do
  if l.total < size then
    let (code, bytes, fp) ← fatFread rounds l.fp (size - l.total)
    let l := { l with fp, bytes := l.bytes ++ bytes }
    if asInt code ≤ 0 then pure (.inr l)
    else pure (.inl { l with total := u32 (l.total + (asInt code).toNat) })
  else pure (.inr l)

/-- The loop `while (got_total < size)`. -/
def loadWhole (rounds : Nat) (fp : FatFile) : DriverM Loading :=
  Prog.loop (loadRound rounds (fatFsize fp)) rounds { fp, total := 0, bytes := [] }

/-- The common part of the loaders: the file is read to `dst`, and its size is the result, or
an error. -/
def readProgram (rounds : Nat) (path : List UInt8) (dst : Nat) : LoadM (Except Int Nat) := do
  let b ← callKernel get
  let full := (b.buildPath b.curDrive b.curUser path 40).getD []
  let (code, fp) ← callKernel (callFat (fatFopen rounds full FatFile.unused))
  if code ≠ 0 then pure (.error (-1))
  else
    note (.loaded path)
    let l ← callKernel (callFat (loadWhole rounds fp))
    modify fun s => s.withRam (s.machine.ram.copyIn dst l.bytes)
    if l.total ≠ fatFsize fp then pure (.error (-3)) else pure (.ok (fatFsize fp))

/-- `pgmld_run_mips`. -/
def pgmldRunMips (program : Program) (path tail : List UInt8) : LoadM Int := fun s =>
  some ((program tail s.machine).1,
    { machine := (program tail s.machine).2, log := s.log ++ [.started path] })

/-- `try_load_path_mips`. -/
def tryLoadPathMips (program : Program) (rounds : Nat) (path tail : List UInt8) : LoadM Int := do
  match ← readProgram rounds path tpaBase with
  | .error code => pure code
  | .ok _ => pgmldRunMips program path tail

/-- `pgmld_finish_and_run` of this port. -/
def pgmldFinishAndRun : Int := -1

/-- Where `try_load_path` loads to. -/
abbrev cseg : Nat := tpaBase + 0x100

/-- The image is an LZSS one. -/
def isLzss (ram : Ram) (size : Nat) : Bool :=
  4 ≤ size && (List.range 4).map (fun i => ram.byte (cseg + i)) = [76, 90, 83, 83]

/-- `unc_size`. -/
def lzssSize (ram : Ram) : Nat :=
  (ram.byte (cseg + 4)).toNat * 2 ^ 24 + (ram.byte (cseg + 5)).toNat * 2 ^ 16 +
    (ram.byte (cseg + 6)).toNat * 2 ^ 8 + (ram.byte (cseg + 7)).toNat

/-- The image is moved to the end of memory and decompressed from there.  The output ends below
the image, so that the image does not change while it is read. -/
def decompressTop (size : Nat) (m : Machine) : Int × Machine :=
  let unc := lzssSize m.ram
  if ramEnd - cseg < u32 (unc + size + 0x1000) then (-2, m)
  else
    let src := u32 (ramEnd + 2 ^ 32 - 0x1000 - size)
    let moved := m.ram.storeAll (fun i => u32 (src + i)) (fun ram i => ram.byte (u32 (cseg + i)))
      (List.range size).reverse
    let blob := (List.range size).map fun i => moved.byte (u32 (src + i))
    let result := lzssDecompress m.window blob (ramEnd - cseg)
    let m := { m with ram := moved.copyIn cseg result.output, window := result.window }
    (if result.count ≠ unc then -4 else pgmldFinishAndRun, m)

/-- What `try_load_path` does with an image that it has read. -/
def finishPath (size : Nat) : LoadM Int := fun s =>
  if isLzss s.machine.ram size then
    some ((decompressTop size s.machine).1,
      { s with machine := (decompressTop size s.machine).2 })
  else some (pgmldFinishAndRun, s)

/-- `try_load_path`. -/
def tryLoadPath (rounds : Nat) (path : List UInt8) : LoadM Int := do
  match ← readProgram rounds path cseg with
  | .error code => pure code
  | .ok size => finishPath size

/-- `redir_flush`, with the handle behind it. -/
def redirFlush (rounds : Nat) (r : Redirection) : LoadM FatFile :=
  if r.buf = [] then pure r.file
  else do
    let (_, fp) ← callKernel (callFat (fatFwrite rounds r.file r.buf))
    pure fp

/-- `d_ext_redir_end`. -/
def redirEnd (rounds : Nat) : LoadM Unit := do
  let r := (← get).machine.redir
  if r.active then
    let fp ← redirFlush rounds r
    let _ ← callKernel (callFat (fatFflush fp))
    modify fun s => { s with machine :=
      { s.machine with redir := { active := false, file := fatFclose fp, buf := [] } } }
  else pure ()

/-- How BDOS 113 ends: with a result, or in the warm boot. -/
inductive LoadEnd
  | code (v : Nat)
  | warmBoot
  deriving DecidableEq

/-- The name of a candidate: at most 16 characters up to a dot, with an extension. -/
def candidate (name ext : List UInt8) : List UInt8 := (name.take 16).takeWhile (· ≠ 46) ++ 46 :: ext

/-- What follows a candidate that counts as run. -/
def finishRun (rounds : Nat) : LoadM LoadEnd := do
  redirEnd rounds
  modify fun s => { s with machine := { s.machine with window := inrdEnd s.machine.window } }
  pure .warmBoot

/-- `d_ext_loadrun`. -/
def dExtLoadrun (program : Program) (rounds : Nat) (name tail : List UInt8) : LoadM LoadEnd := do
  if !(← callKernel ensureMounted) then pure (.code 0xFF)
  else if (← tryLoadPathMips program rounds (candidate name [77, 73, 80]) tail) = 0 then
    finishRun rounds
  else if (← tryLoadPath rounds (candidate name [54, 56, 75])) = 0 then finishRun rounds
  else if (← tryLoadPath rounds (candidate name [76, 90])) = 0 then finishRun rounds
  else pure (.code 0xFF)

end Source

section Runs

variable {α : Type} {program : Program} {rounds : Nat} {name path tail : List UInt8}
  {s s' : Session} {dst : Nat}

theorem note_run (event : LoadEvent) (s : Session) :
    note event s = some ((), { s with log := s.log ++ [event] }) := rfl

theorem callKernel_run {f : BdosM α} {a : α} {b : Kernel}
    (run : f s.machine.kernel = some (a, b)) :
    callKernel f s = some (a, s.withKernel b) := by
  rw [callKernel, run]
  rfl

theorem callKernel_eq_some {f : BdosM α} {a : α} (run : callKernel f s = some (a, s')) :
    ∃ b, f s.machine.kernel = some (a, b) ∧ s' = s.withKernel b := by
  obtain ⟨⟨a', b⟩, inner, same⟩ := Option.map_eq_some_iff.mp run
  obtain ⟨rfl, rfl⟩ := Prod.mk.inj same
  exact ⟨b, inner, rfl⟩

theorem callKernel_fueled {f : Nat → BdosM α} (fueled : Fueled f) :
    Fueled fun rounds => callKernel (f rounds) := by
  rintro rounds rounds' le s ⟨a, s'⟩ run
  obtain ⟨b, inner, rfl⟩ := callKernel_eq_some run
  exact callKernel_run (fueled le _ _ inner)

theorem loadRound_fueled (size : Nat) (l : Loading) :
    Fueled fun rounds => loadRound rounds size l :=
  .ite (.bind (fatFread_fueled _ _) fun _ => .const _) (.const _)

theorem loadWhole_fueled (fp : FatFile) : Fueled fun rounds => loadWhole rounds fp :=
  fun _ _ le => Extends.loop (fun l => loadRound_fueled _ l le) le _

theorem readProgram_fueled (path : List UInt8) (dst : Nat) :
    Fueled fun rounds => readProgram rounds path dst := by
  refine .bind (.const _) fun b => .bind (callKernel_fueled (callFat_fueled
    (fatFopen_fueled _ _))) fun opened => .ite (.const _) (.bind (.const _) fun _ => ?_)
  exact .bind (callKernel_fueled (callFat_fueled (loadWhole_fueled _))) fun _ => .const _

/-- No program is started between the two. -/
def Unstarted (s s' : Session) : Prop :=
  ∃ more, s'.log = s.log ++ more ∧ ∀ path, .started path ∉ more

theorem Unstarted.same (same : s'.log = s.log) : Unstarted s s' := ⟨[], by simp [same], by simp⟩

theorem Unstarted.loaded (log : s'.log = s.log ++ [.loaded path]) : Unstarted s s' :=
  ⟨_, log, by simp⟩

theorem Unstarted.trans {s'' : Session} (first : Unstarted s s') (second : Unstarted s' s'') :
    Unstarted s s'' := by
  obtain ⟨more, log, without⟩ := first
  obtain ⟨more', log', without'⟩ := second
  refine ⟨more ++ more', by rw [log', log, List.append_assoc], fun path inside => ?_⟩
  rcases List.mem_append.mp inside with inside | inside
  · exact without path inside
  · exact without' path inside

/-- Reading a candidate gives its size or an error. -/
theorem readProgram_cases {r : Except Int Nat}
    (run : readProgram rounds path dst s = some (r, s')) :
    Unstarted s s' ∧ ((∃ code < 0, r = .error code) ∨ ∃ size, r = .ok size) := by
  obtain ⟨b, s₁, got, run⟩ := Prog.bind_eq_some run
  obtain ⟨k₁, -, rfl⟩ := callKernel_eq_some got
  obtain ⟨⟨code, fp⟩, s₂, opened, run⟩ := Prog.bind_eq_some run
  obtain ⟨k₂, -, rfl⟩ := callKernel_eq_some opened
  dsimp only at run
  split at run
  · obtain ⟨rfl, rfl⟩ := Prod.mk.inj (Option.some.inj run)
    exact ⟨.same rfl, .inl ⟨-1, by decide, rfl⟩⟩
  · rw [Prog.bind_eq_of_run (note_run _ _)] at run
    obtain ⟨l, s₄, loaded, run⟩ := Prog.bind_eq_some run
    obtain ⟨k₃, -, rfl⟩ := callKernel_eq_some loaded
    rw [Prog.modify_bind_run] at run
    split at run
    · obtain ⟨rfl, rfl⟩ := Prod.mk.inj (Option.some.inj run)
      exact ⟨.loaded rfl, .inl ⟨-3, by decide, rfl⟩⟩
    · obtain ⟨rfl, rfl⟩ := Prod.mk.inj (Option.some.inj run)
      exact ⟨.loaded rfl, .inr ⟨_, rfl⟩⟩

/-- The `.MIP` candidate is not started, or has been read in full and is started. -/
theorem tryLoadPathMips_cases {rc : Int}
    (run : tryLoadPathMips program rounds path tail s = some (rc, s')) :
    (rc ≠ 0 ∧ Unstarted s s') ∨
      ∃ size s₁, readProgram rounds path tpaBase s = some (.ok size, s₁) ∧ Unstarted s s₁ ∧
        rc = (program tail s₁.machine).1 ∧ s'.log = s₁.log ++ [.started path] := by
  obtain ⟨r, s₁, read, run⟩ := Prog.bind_eq_some run
  obtain ⟨quiet, ⟨code, negative, rfl⟩ | ⟨size, rfl⟩⟩ := readProgram_cases read
  · obtain ⟨rfl, rfl⟩ := Prod.mk.inj (Option.some.inj run)
    exact .inl ⟨by omega, quiet⟩
  · obtain ⟨rfl, rfl⟩ := Prod.mk.inj (Option.some.inj run)
    exact .inr ⟨size, s₁, read, quiet, rfl, rfl⟩

theorem decompressTop_code (size : Nat) (m : Machine) : (decompressTop size m).1 ≠ 0 := by
  simp only [decompressTop]
  split_ifs <;> simp [pgmldFinishAndRun]

/-- The other loaders never succeed on this port. -/
theorem tryLoadPath_cases {rc : Int} (run : tryLoadPath rounds path s = some (rc, s')) :
    rc ≠ 0 ∧ Unstarted s s' := by
  obtain ⟨r, s₁, read, run⟩ := Prog.bind_eq_some run
  obtain ⟨quiet, ⟨code, negative, rfl⟩ | ⟨size, rfl⟩⟩ := readProgram_cases read
  · obtain ⟨rfl, rfl⟩ := Prod.mk.inj (Option.some.inj run)
    exact ⟨by omega, quiet⟩
  · dsimp only [finishPath] at run
    split at run
    · obtain ⟨rfl, rfl⟩ := Prod.mk.inj (Option.some.inj run)
      exact ⟨decompressTop_code _ _, quiet.trans (.same rfl)⟩
    · obtain ⟨rfl, rfl⟩ := Prod.mk.inj (Option.some.inj run)
      exact ⟨by decide, quiet⟩

theorem redirFlush_returns (r : Redirection) (enough : r.buf.length < rounds) :
    Total (redirFlush rounds r) := by
  refine .ite (.pure _) (.bind (fun s => ?_) fun _ => .pure _)
  obtain ⟨result, d, run⟩ := fatFwrite_returns enough r.file s.machine.kernel.fat
  exact ⟨result, _, callKernel_run (callFat_run run)⟩

theorem redirFlush_log {fp : FatFile} {r : Redirection}
    (run : redirFlush rounds r s = some (fp, s')) : s'.log = s.log := by
  unfold redirFlush at run
  split at run
  · obtain ⟨rfl, rfl⟩ := Prod.mk.inj (Option.some.inj run)
    rfl
  · obtain ⟨result, s₁, written, run⟩ := Prog.bind_eq_some run
    obtain ⟨b, -, rfl⟩ := callKernel_eq_some written
    obtain ⟨rfl, rfl⟩ := Prod.mk.inj (Option.some.inj run)
    rfl

theorem redirEnd_eq (run : redirEnd rounds s = some ((), s')) :
    s'.log = s.log ∧ s'.machine.redir.active = false := by
  rw [redirEnd, Prog.get_bind_run] at run
  split at run
  · obtain ⟨fp, s₁, flushed, run⟩ := Prog.bind_eq_some run
    obtain ⟨code, s₂, written, run⟩ := Prog.bind_eq_some run
    obtain ⟨b, -, rfl⟩ := callKernel_eq_some written
    obtain ⟨-, rfl⟩ := Prod.mk.inj (Option.some.inj run)
    have same := redirFlush_log flushed
    exact ⟨same, rfl⟩
  · next closed =>
    obtain ⟨-, rfl⟩ := Prod.mk.inj (Option.some.inj run)
    exact ⟨rfl, by simpa using closed⟩

theorem inrdEnd_active (w : Window) : (inrdEnd w).active inrdBase = 0 :=
  Buffer.loadBe_blit_self w inrdBase 4 0 (by decide)

/-- The redirections are closed when the warm boot is entered, if it is. -/
theorem finishRun_eq {e : LoadEnd} (run : finishRun rounds s = some (e, s')) :
    e = .warmBoot ∧ s'.log = s.log ∧ s'.machine.redir.active = false ∧
      s'.machine.window.active inrdBase = 0 := by
  obtain ⟨_, s₁, ended, run⟩ := Prog.bind_eq_some run
  obtain ⟨log, closed⟩ := redirEnd_eq ended
  obtain ⟨rfl, rfl⟩ := Prod.mk.inj (Option.some.inj run)
  exact ⟨rfl, log, closed, inrdEnd_active _⟩

theorem finishRun_returns (s : Session) (enough : s.machine.redir.buf.length < rounds) :
    ∃ s', finishRun rounds s = some (.warmBoot, s') := by
  have ended : ∃ s₁, redirEnd rounds s = some ((), s₁) := by
    by_cases active : s.machine.redir.active = true
    · obtain ⟨fp, s₁, flushed⟩ := redirFlush_returns s.machine.redir enough s
      obtain ⟨code, d, written⟩ := fatFflush_total fp s₁.machine.kernel.fat
      have called : callKernel (callFat (fatFflush fp)) s₁ = some (code, _) :=
        callKernel_run (callFat_run written)
      exact ⟨_, by
        rw [redirEnd, Prog.get_bind_run, if_pos active, Prog.bind_eq_of_run flushed,
          Prog.bind_eq_of_run called]
        rfl⟩
    · exact ⟨s, by rw [redirEnd, Prog.get_bind_run, if_neg active]; rfl⟩
  obtain ⟨s₁, ended⟩ := ended
  exact ⟨_, by rw [finishRun, Prog.bind_eq_of_run ended]; rfl⟩

end Runs

section Law

/-- Once a program has been started nothing else is loaded or started, the redirections are
closed and the warm boot is entered; in particular no error is returned. -/
def RunsOnce (e : LoadEnd) (s' : Session) : Prop :=
  ∀ front path back, s'.log = front ++ .started path :: back →
    back = [] ∧ e = .warmBoot ∧ s'.machine.redir.active = false ∧
      s'.machine.window.active inrdBase = 0

/-- The `.MIP` candidate is read in full and started on this machine. -/
def Starts (name : List UInt8) (m m' : Machine) : Prop :=
  ∃ rounds s₀ size s₁, callKernel ensureMounted { machine := m, log := [] } = some (true, s₀) ∧
    readProgram rounds (candidate name [77, 73, 80]) tpaBase s₀ = some (.ok size, s₁) ∧
    s₁.machine = m'

/-- What has to hold of a call of BDOS 113: it ends when its program does, and however it
ends, it has run one program at most. -/
def LoadrunMeets (program : Program) (name tail : List UInt8) (m : Machine) : Prop :=
  (∀ m', Starts name m m' →
    Ends (fun rounds => dExtLoadrun program rounds name tail) { machine := m, log := [] }) ∧
  ∀ rounds e s', dExtLoadrun program rounds name tail { machine := m, log := [] } = some (e, s') →
    RunsOnce e s'

variable {program : Program} {rounds : Nat} {name path tail : List UInt8} {m : Machine}
  {s s' s₀ s₁ : Session} {e : LoadEnd} {size : Nat}

/-- What the `.MIP` candidate comes to decides; behind it nothing is started. -/
theorem loadrun_mips (mounted : callKernel ensureMounted s = some (true, s₀))
    (run : dExtLoadrun program rounds name tail s = some (e, s')) :
    ∃ rc s₂, tryLoadPathMips program rounds (candidate name [77, 73, 80]) tail s₀ =
        some (rc, s₂) ∧
      ((rc = 0 ∧ finishRun rounds s₂ = some (e, s')) ∨
        (rc ≠ 0 ∧ e = .code 0xFF ∧ Unstarted s₂ s')) := by
  rw [dExtLoadrun, Prog.bind_eq_of_run mounted] at run
  obtain ⟨rc, s₂, mips, run⟩ := Prog.bind_eq_some run
  refine ⟨rc, s₂, mips, ?_⟩
  split at run
  · next zero => exact .inl ⟨zero, run⟩
  · next nonzero =>
    obtain ⟨rc₁, s₃, raw, run⟩ := Prog.bind_eq_some run
    obtain ⟨fails₁, quiet₁⟩ := tryLoadPath_cases raw
    rw [if_neg fails₁] at run
    obtain ⟨rc₂, s₄, packed, run⟩ := Prog.bind_eq_some run
    obtain ⟨fails₂, quiet₂⟩ := tryLoadPath_cases packed
    rw [if_neg fails₂] at run
    obtain ⟨rfl, rfl⟩ := Prod.mk.inj (Option.some.inj run)
    exact .inr ⟨nonzero, rfl, quiet₁.trans quiet₂⟩

/-- Where a program has been started behind a session without any. -/
theorem Unstarted.split {front back : List LoadEvent} {p : List UInt8} (quiet : Unstarted s s₁)
    (empty : s.log = []) (log : s'.log = s₁.log ++ [.started path])
    (split : s'.log = front ++ .started p :: back) : back = [] := by
  obtain ⟨more, same, without⟩ := quiet
  rw [empty, List.nil_append] at same
  rw [log, same] at split
  rcases List.append_eq_append_iff.mp split with ⟨mid, rfl, rest⟩ | ⟨mid, rfl, rest⟩
  · cases mid with
    | nil => exact (List.cons.inj rest).2.symm
    | cons first mid => simp at rest
  · cases mid with
    | nil => exact (List.cons.inj rest).2
    | cons first mid =>
        obtain ⟨rfl, -⟩ := List.cons.inj rest
        exact absurd (by simp) (without p)

theorem Unstarted.absurd {front back : List LoadEvent} {p : List UInt8} (quiet : Unstarted s s')
    (empty : s.log = []) (split : s'.log = front ++ .started p :: back) : False := by
  obtain ⟨more, same, without⟩ := quiet
  rw [empty, List.nil_append] at same
  exact without p (by rw [← same, split]; simp)

theorem Unstarted.mounting {found : Bool} (run : callKernel ensureMounted s = some (found, s₀)) :
    Unstarted s s₀ := by
  obtain ⟨b, -, rfl⟩ := callKernel_eq_some run
  exact .same rfl

theorem loadrun_runsOnce (succeeds : ∀ m', Starts name m m' → (program tail m').1 = 0)
    (run : dExtLoadrun program rounds name tail { machine := m, log := [] } = some (e, s')) :
    RunsOnce e s' := by
  intro front p back split
  obtain ⟨found, s₀, mounting, -⟩ := Prog.bind_eq_some run
  have quiet := Unstarted.mounting mounting
  cases found with
  | false =>
      rw [dExtLoadrun, Prog.bind_eq_of_run mounting] at run
      obtain ⟨-, rfl⟩ := Prod.mk.inj (Option.some.inj run)
      exact (quiet.absurd rfl split).elim
  | true =>
      obtain ⟨rc, s₂, mips, ends⟩ := loadrun_mips mounting run
      rcases tryLoadPathMips_cases mips with ⟨fails, still⟩ | ⟨size, s₁, read, still, result, log⟩
      · rcases ends with ⟨zero, -⟩ | ⟨-, -, rest⟩
        · exact absurd zero fails
        · exact (((quiet.trans still).trans rest).absurd rfl split).elim
      · have zero : rc = 0 := result.trans (succeeds _ ⟨rounds, s₀, size, s₁, mounting, read, rfl⟩)
        rcases ends with ⟨-, finish⟩ | ⟨nonzero, -, -⟩
        · obtain ⟨rfl, same, output, input⟩ := finishRun_eq finish
          exact ⟨(quiet.trans still).split rfl (same.trans log) split, rfl, output, input⟩
        · exact absurd zero nonzero

theorem loadrun_ends {m' : Machine} (starts : Starts name m m') (zero : (program tail m').1 = 0) :
    Ends (fun rounds => dExtLoadrun program rounds name tail) { machine := m, log := [] } := by
  obtain ⟨rounds, s₀, size, s₁, mounting, read, rfl⟩ := starts
  have fueled := readProgram_fueled (candidate name [77, 73, 80]) tpaBase
  generalize after : (⟨(program tail s₁.machine).2, s₁.log ++ [.started
    (candidate name [77, 73, 80])]⟩ : Session) = s₂
  -- the program is read with some number of rounds, and its output is flushed with another
  have enough := Nat.le_max_left rounds (s₂.machine.redir.buf.length + 1)
  have flushes := Nat.le_max_right rounds (s₂.machine.redir.buf.length + 1)
  generalize max rounds (s₂.machine.redir.buf.length + 1) = more at enough flushes
  have mips : tryLoadPathMips program more (candidate name [77, 73, 80]) tail s₀ =
      some (0, s₂) := by
    rw [tryLoadPathMips, Prog.bind_eq_of_run (fueled enough _ _ read), ← after, ← zero]
    rfl
  obtain ⟨s', finish⟩ := finishRun_returns s₂ flushes
  refine ⟨.warmBoot, s', more, ?_⟩
  change dExtLoadrun program more name tail _ = _
  rw [dExtLoadrun, Prog.bind_eq_of_run mounting]
  exact (Prog.bind_eq_of_run mips).trans finish

/-- A nonzero result of the program is taken for a failure to load it: the other candidates are
tried, and the command counts as not found. -/
theorem loadrun_nonzero {m' : Machine} (starts : Starts name m m')
    (nonzero : (program tail m').1 ≠ 0)
    (run : dExtLoadrun program rounds name tail { machine := m, log := [] } = some (e, s')) :
    e = .code 0xFF ∧ .started (candidate name [77, 73, 80]) ∈ s'.log := by
  obtain ⟨rounds', s₀, size, s₁, mounting, read, rfl⟩ := starts
  obtain ⟨rc, s₂, mips, ends⟩ := loadrun_mips mounting run
  obtain ⟨r, s₁', read', started⟩ := Prog.bind_eq_some mips
  obtain ⟨rfl, rfl⟩ := (readProgram_fueled _ _).unique ⟨rounds, read'⟩ ⟨rounds', read⟩
  obtain ⟨rfl, rfl⟩ := Prod.mk.inj (Option.some.inj started)
  rcases ends with ⟨zero, -⟩ | ⟨-, rfl, more, log, -⟩
  · exact absurd zero nonzero
  · exact ⟨rfl, by rw [log]; simp⟩

theorem loadrunMeets_iff (program : Program) (name tail : List UInt8) (m : Machine) :
    LoadrunMeets program name tail m ↔ ∀ m', Starts name m m' → (program tail m').1 = 0 := by
  constructor
  · intro meets m' starts
    by_contra nonzero
    obtain ⟨e, s', rounds, run⟩ := meets.1 m' starts
    obtain ⟨rfl, inside⟩ := loadrun_nonzero starts nonzero run
    obtain ⟨front, back, split⟩ := List.append_of_mem inside
    exact LoadEnd.noConfusion (meets.2 rounds _ s' run front _ back split).2.1
  · intro succeeds
    exact ⟨fun m' starts => loadrun_ends starts (succeeds m' starts),
      fun rounds e s' run => loadrun_runsOnce succeeds run⟩

/-- A volume with the one program `A`. -/
def programVolume (ext bytes : List UInt8) : Nat → Sector
  | 3 => (((Buffer.zero.blit 0 (65 :: List.replicate 7 32)).blit 8 (ext ++ [0x20])).blit 26
      [2, 0]).blit 28 (Buffer.leBytes 4 bytes.length)
  | 4 => Buffer.zero.blit 0 bytes
  | i => fileVolume 0 i

def programMachine (ext bytes : List UInt8) : Machine :=
  { kernel := { fileKernel 0 with
      fat := { Driver.initial (programVolume ext bytes) 68 with m := fileMount } }
    redir := { active := false, file := FatFile.unused, buf := [] }
    window := Buffer.zero
    ram := { byte := fun _ => 0, strayed := false } }

theorem failing_program_is_not_found :
    ¬ LoadrunMeets (fun _ m => (1, m)) [65] [] (programMachine [77, 73, 80] [1, 2, 3]) := by
  intro meets
  have run : (dExtLoadrun (fun _ m => (1, m)) 200 [65] []
      { machine := programMachine [77, 73, 80] [1, 2, 3], log := [] }).map
      (fun r => (r.1, r.2.log)) = some (.code 0xFF,
        [.loaded [65, 46, 77, 73, 80], .started [65, 46, 77, 73, 80]]) := by
    decide +kernel
  obtain ⟨⟨e, s'⟩, run, seen⟩ := Option.map_eq_some_iff.mp run
  obtain ⟨rfl, log⟩ := Prod.mk.inj seen
  exact LoadEnd.noConfusion (meets.2 200 _ s' run [_] _ [] log).2.1

end Law

end Ncd15.Bdos
