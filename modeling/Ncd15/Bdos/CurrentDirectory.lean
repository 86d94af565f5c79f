import Ncd15.Bdos.Handles
import Ncd15.Fat.SharedBufferRuns
import Ncd15.Fat.Walks

/-!
# The current directory

`d_ext_chdir` composes the text of the new subpath, walks to it, and keeps the text.  The
text and the directory agree as long as the walk cuts the text into the components that it
spells, which it does not at a slash at the end or at a component of more than 15
characters.
-/

namespace Ncd15.Bdos

open Ncd15.Library Ncd15.Fat

section Code

/-- The text without its last component. -/
def popPath (cur : List UInt8) : List UInt8 :=
  ((cur.rdropWhile (· ≠ 47)).dropLast).take 39

/-- The new subpath `ns` that `d_ext_chdir` composes; `none` where it returns 0 at once. -/
def chdirTarget (cur arg : List UInt8) : Option (List UInt8) :=
  match arg with
  | 47 :: rest => some (if rest = [] then [] else (47 :: rest).take 39)
  | [46, 46] => if cur = [] then none else some (popPath cur)
  | [] => none
  | arg => some ((cur ++ 47 :: arg).take 39)

/-- The path that is checked: mount, user prefix and new subpath in a buffer of 80. -/
def Kernel.dirPath (b : Kernel) (ns : List UInt8) : List UInt8 :=
  let mounted := (mountPath b.curDrive.toNat).take 79
  ((mounted ++ if mounted.length + 4 < 80 then userPath b.curUser.toNat else []) ++ ns).take 79

/-- The check of the new subpath and the assignment to `cur_subpath`. -/
def chdirTo (rounds : Nat) (ns : List UInt8) : BdosM Nat := do
  if ns = [] then
    modify fun b => { b with curSubpath := [] }
    pure 0
  else
    match ← callFat (fatDiropenPath rounds ((← get).dirPath ns)) with
    | .error _ => pure 0xFF
    | .ok _ =>
        modify fun b => { b with curSubpath := ns.take 39 }
        pure 0

/-- A string up to its NUL. -/
def cString (bytes : List UInt8) : List UInt8 := bytes.takeWhile (· ≠ 0)

/-- `d_ext_chdir`; `none` stands for the null pointer. -/
def dExtChdir (rounds : Nat) (arg : Option (List UInt8)) : BdosM Nat := do
  if !(← ensureMounted) then pure 0xFF
  else
    match arg with
    | none => pure 0xFF
    | some arg =>
        match chdirTarget (← get).curSubpath (cString arg) with
        | none => pure 0
        | some ns => chdirTo rounds ns

end Code

section Steps

variable {rounds code : Nat} {b b' : Kernel} {ns : List UInt8}

/-- What the check and the assignment do. -/
theorem chdirTo_cases (run : chdirTo rounds ns b = some (code, b')) :
    (ns = [] ∧ code = 0 ∧ b' = { b with curSubpath := [] }) ∨
    (ns ≠ [] ∧ ∃ result d', fatDiropenPath rounds (b.dirPath ns) b.fat = some (result, d') ∧
      ((∃ error, result = .error error ∧ code = 0xFF ∧ b' = { b with fat := d' }) ∨
        ∃ it, result = .ok it ∧ code = 0 ∧
          b' = { b with fat := d', curSubpath := ns.take 39 })) := by
  unfold chdirTo at run
  split at run
  · rename_i none
    obtain ⟨rfl, rfl⟩ := Prod.mk.inj (Option.some.inj run)
    exact .inl ⟨none, rfl, rfl⟩
  rename_i nonempty
  rw [Prog.get_bind_run] at run
  obtain ⟨result, b₁, call, rest⟩ := Prog.bind_eq_some run
  obtain ⟨⟨result', d'⟩, walk, same⟩ := Option.map_eq_some_iff.mp call
  obtain ⟨rfl, rfl⟩ := Prod.mk.inj same
  refine .inr ⟨nonempty, result', d', walk, ?_⟩
  cases result' with
  | error error =>
      obtain ⟨rfl, rfl⟩ := Prod.mk.inj (Option.some.inj rest)
      exact .inl ⟨error, rfl, rfl, rfl⟩
  | ok it =>
      obtain ⟨rfl, rfl⟩ := Prod.mk.inj (Option.some.inj rest)
      exact .inr ⟨it, rfl, rfl, rfl⟩

/-- What a call does. -/
theorem dExtChdir_cases {arg : Option (List UInt8)}
    (run : dExtChdir rounds arg b = some (code, b')) :
    ∃ ok b₁, ensureMounted b = some (ok, b₁) ∧
      ((code = 0xFF ∧ b' = b₁) ∨
        (ok = true ∧ ∃ bytes, arg = some bytes ∧
          ((chdirTarget b₁.curSubpath (cString bytes) = none ∧ code = 0 ∧ b' = b₁) ∨
            ∃ ns, chdirTarget b₁.curSubpath (cString bytes) = some ns ∧
              chdirTo rounds ns b₁ = some (code, b')))) := by
  obtain ⟨ok, b₁, mounted, rest⟩ := Prog.bind_eq_some run
  refine ⟨ok, b₁, mounted, ?_⟩
  cases ok with
  | false =>
      obtain ⟨rfl, rfl⟩ := Prod.mk.inj (Option.some.inj rest)
      exact .inl ⟨rfl, rfl⟩
  | true =>
      cases arg with
      | none =>
          obtain ⟨rfl, rfl⟩ := Prod.mk.inj (Option.some.inj rest)
          exact .inl ⟨rfl, rfl⟩
      | some bytes =>
          refine .inr ⟨rfl, bytes, rfl, ?_⟩
          dsimp only at rest
          rw [if_neg (by decide), Prog.get_bind_run] at rest
          cases target : chdirTarget b₁.curSubpath (cString bytes) with
          | none =>
              rw [target] at rest
              obtain ⟨rfl, rfl⟩ := Prod.mk.inj (Option.some.inj rest)
              exact .inl ⟨rfl, rfl, rfl⟩
          | some ns =>
              rw [target] at rest
              exact .inr ⟨ns, rfl, rest⟩

/-- A mount that has been done stays. -/
theorem ensureMounted_of_mounted (mounted : b.mounted = true) :
    ensureMounted b = some (true, b) := by
  rw [ensureMounted, Prog.get_bind_run, if_pos mounted]
  rfl

/-- A call that needs the mount leaves everything but the driver, which serves reads when
the volume is mounted. -/
theorem ensureMounted_cases {ok : Bool} (healthy : b.fat.Healthy)
    (run : ensureMounted b = some (ok, b')) :
    (b.mounted = true ∧ ok = true ∧ b' = b) ∨
    (b.mounted = false ∧ ∃ d', b' = { b with fat := d', mounted := ok } ∧ Idle d') := by
  rw [ensureMounted, Prog.get_bind_run] at run
  by_cases mounted : b.mounted = true
  · rw [if_pos mounted] at run
    obtain ⟨rfl, rfl⟩ := Prod.mk.inj (Option.some.inj run)
    exact .inl ⟨mounted, rfl, rfl⟩
  rw [if_neg mounted] at run
  have unmounted : b.mounted = false := by simpa using mounted
  obtain ⟨result, b₁, call, rest⟩ := Prog.bind_eq_some run
  obtain ⟨⟨result', d'⟩, mount, same⟩ := Option.map_eq_some_iff.mp call
  obtain ⟨rfl, rfl⟩ := Prod.mk.inj same
  have idle : Idle d' := fatMount_idle b.fat healthy _ d' mount
  refine .inr ⟨unmounted, d', ?_, idle⟩
  split at rest
  · obtain ⟨rfl, rfl⟩ := Prod.mk.inj (Option.some.inj rest)
    rw [← unmounted]
  · obtain ⟨rfl, rfl⟩ := Prod.mk.inj (Option.some.inj rest)
    rfl

end Steps

section Paths

variable {b : Kernel} {names : List (List UInt8)}

/-- The components of a mount path. -/
def mountNames (drive : Nat) : List (List UInt8) :=
  if drive = 0 then [] else [[UInt8.ofNat (65 + drive)]]

/-- The component of a user area. -/
def userNames (user : Nat) : List (List UInt8) :=
  if user = 0 then [] else [(userPath user).drop 1]

/-- The components in front of the subpath. -/
def Kernel.prefixNames (b : Kernel) : List (List UInt8) :=
  mountNames b.curDrive.toNat ++ userNames b.curUser.toNat

theorem joinPath_mountNames (drive : Nat) : joinPath (mountNames drive) = mountPath drive := by
  unfold mountNames mountPath
  split <;> rfl

theorem joinPath_userNames (user : Nat) : joinPath (userNames user) = userPath user := by
  unfold userNames userPath
  split
  · rfl
  · simp [joinPath]

theorem length_mountPath_le (drive : Nat) : (mountPath drive).length ≤ 2 := by
  unfold mountPath
  split <;> simp

theorem length_userPath_le (user : Nat) : (userPath user).length ≤ 4 := by
  unfold userPath
  split
  · decide
  · split <;> simp

/-- The buffer of 80 holds every path. -/
theorem dirPath_join (short : (joinPath names).length ≤ 39) :
    b.dirPath (joinPath names) = joinPath (b.prefixNames ++ names) := by
  have mount := length_mountPath_le b.curDrive.toNat
  have user := length_userPath_le b.curUser.toNat
  have mounted : (mountPath b.curDrive.toNat).take 79 = mountPath b.curDrive.toNat :=
    List.take_of_length_le (by omega)
  unfold Kernel.dirPath Kernel.prefixNames
  dsimp only
  rw [mounted, if_pos (by omega), joinPath_append, joinPath_append, joinPath_mountNames,
    joinPath_userNames]
  refine List.take_of_length_le ?_
  rw [List.length_append, List.length_append]
  omega

/-- The drives and users that BDOS 14 and 32 can set. -/
structure Kernel.Selected (b : Kernel) : Prop where
  drive : b.curDrive < 16
  user : b.curUser < 16

theorem isName_above (selected : b.Selected) : ∀ name ∈ b.prefixNames, IsName name := by
  have mounts : ∀ drive < 16, ∀ name ∈ mountNames drive, IsName name := by decide
  have users : ∀ user < 16, ∀ name ∈ userNames user, IsName name := by decide
  intro name mem
  rcases List.mem_append.mp mem with mem | mem
  · exact mounts _ selected.drive name mem
  · exact users _ selected.user name mem

/-- `popPath` takes away a component. -/
theorem popPath_append {path name : List UInt8} (noSlash : 47 ∉ name) :
    popPath (path ++ 47 :: name) = path.take 39 := by
  have cut : (path ++ 47 :: name).rdropWhile (· ≠ 47) = path ++ [47] := by
    induction name using List.reverseRecOn with
    | nil => exact List.rdropWhile_concat_neg _ _ _ (by simp)
    | append_singleton name c ih =>
        rw [List.mem_append, not_or, List.mem_singleton] at noSlash
        have other : c ≠ 47 := fun slash => noSlash.2 slash.symm
        have split : path ++ 47 :: (name ++ [c]) = (path ++ 47 :: name) ++ [c] := by simp
        rw [split, List.rdropWhile_concat_pos _ _ _ (by simpa using other)]
        exact ih noSlash.1
  rw [popPath, cut, List.dropLast_concat]

end Paths

section Runs

variable {rounds code : Nat} {b b' : Kernel} {ns : List UInt8} {arg : Option (List UInt8)}

/-- The walk through these components, below the mount and the user prefix, ends in a
directory. -/
def Kernel.Walks (b : Kernel) (rounds : Nat) (names : List (List UInt8)) : Prop :=
  b.fat.m.valid = true ∧ ∃ it d', walkDirs rounds ((b.prefixNames ++ names).map (·, true))
    b.fat.m.diropenRoot b.fat = some (.ok it, d')

/-- The subpath is empty, or it spells components, none of them empty, that name a
directory. -/
def Kernel.InDirectory (b : Kernel) (rounds : Nat) : Prop :=
  b.curSubpath = [] ∨ ∃ names, names ≠ [] ∧ (∀ name ∈ names, name ≠ [] ∧ 47 ∉ name) ∧
    b.curSubpath = joinPath names ∧ b.Walks rounds names

/-- A single component other than `.` and `..`. -/
structure SingleName (text : List UInt8) : Prop where
  nonempty : text ≠ []
  noSlash : 47 ∉ text
  notDot : text ≠ [46]
  notDots : text ≠ [46, 46]

/-- No directory answers to a subpath. -/
def Kernel.Refuses (b : Kernel) (rounds : Nat) (ns : List UInt8) : Prop :=
  ∀ b₁, ensureMounted b = some (true, b₁) → ∀ it d',
    fatDiropenPath rounds (b₁.dirPath ns) b₁.fat ≠ some (.ok it, d')

/-- The new subpath, as far as the buffer holds it, has no component that is empty or longer
than 15 characters, or no directory answers to it; a single name is asked for only while the
old subpath does not fill the buffer. -/
structure Clear (rounds : Nat) (b : Kernel) (bytes : List UInt8) : Prop where
  spelled : ∀ ns, chdirTarget b.curSubpath (cString bytes) = some ns →
    (∃ names, (∀ name ∈ names, IsName name) ∧ ns = joinPath names) ∨ b.Refuses rounds ns
  room : SingleName (cString bytes) → b.curSubpath.length < 39

/-- Nothing has been called yet: the subpath is empty, and a volume that is mounted serves
reads. -/
structure Kernel.Fresh (b : Kernel) : Prop where
  selected : b.Selected
  subpath : b.curSubpath = []
  healthy : b.fat.Healthy
  settled : b.mounted = true → Settled b.fat

/-- The states that runs of calls reach, each of which is `Clear`. -/
inductive Reached (rounds : Nat) : Kernel → Prop
  | start {b : Kernel} (fresh : b.Fresh) : Reached rounds b
  | step {b b' : Kernel} {arg : Option (List UInt8)} {code : Nat} (before : Reached rounds b)
      (clear : ∀ bytes ∈ arg, Clear rounds b bytes)
      (run : dExtChdir rounds arg b = some (code, b')) : Reached rounds b'

/-- The invariant of the runs. -/
structure Kernel.Held (b : Kernel) (rounds : Nat) : Prop where
  selected : b.Selected
  healthy : b.fat.Healthy
  settled : b.mounted = true → Settled b.fat
  short : b.curSubpath.length ≤ 39
  inside : b.curSubpath = [] ∨ (b.mounted = true ∧ ∃ names, names ≠ [] ∧
    (∀ name ∈ names, IsName name) ∧ b.curSubpath = joinPath names ∧ b.Walks rounds names)

theorem Kernel.Fresh.held (fresh : b.Fresh) : b.Held rounds where
  selected := fresh.selected
  healthy := fresh.healthy
  settled := fresh.settled
  short := by simp [fresh.subpath]
  inside := .inl fresh.subpath

theorem Kernel.Held.inDirectory (held : b.Held rounds) : b.InDirectory rounds := by
  refine held.inside.imp id ?_
  rintro ⟨-, names, some, isNames, spells, walks⟩
  exact ⟨names, some, fun name mem => ⟨(isNames name mem).nonempty, (isNames name mem).noSlash⟩,
    spells, walks⟩

/-- On the same volume the walk ends there again. -/
theorem Kernel.Walks.again {names : List (List UInt8)} (walks : b.Walks rounds names)
    (same : SameVolume b.fat b'.fat) (drive : b'.curDrive = b.curDrive)
    (user : b'.curUser = b.curUser) : b'.Walks rounds names := by
  obtain ⟨valid, it, d', run⟩ := walks
  obtain ⟨e', again, -⟩ := walkDirs_alike rounds _ _ b.fat b'.fat same _ _ run
  refine ⟨by rw [same.m, valid], it, e', ?_⟩
  unfold Kernel.prefixNames at again ⊢
  rw [same.m, drive, user]
  exact again

/-- The path that is checked is walked name by name. -/
theorem diropen_join {names : List (List UInt8)} (selected : b.Selected)
    (isNames : ∀ name ∈ names, IsName name) (short : (joinPath names).length ≤ 39)
    (valid : b.fat.m.valid = true) :
    fatDiropenPath rounds (b.dirPath (joinPath names)) b.fat =
      walkDirs rounds ((b.prefixNames ++ names).map (·, true)) b.fat.m.diropenRoot b.fat := by
  have all : ∀ name ∈ b.prefixNames ++ names, IsName name := fun name mem =>
    (List.mem_append.mp mem).elim (isName_above selected name) (isNames name)
  rw [dirPath_join short, fatDiropenPath, Prog.bind_eq_of_run (mount_run b.fat),
    if_neg (by simp [valid])]
  refine congrFun (walkDirs_names rounds ?_ _) b.fat
  rw [components_join all]
  simp [Function.comp_def]

/-- Only a mounted volume has directories. -/
theorem valid_of_diropen {path : List UInt8} {d d' : Driver} {it : DirIter}
    (run : fatDiropenPath rounds path d = some (.ok it, d')) : d.m.valid = true := by
  rw [fatDiropenPath, Prog.bind_eq_of_run (mount_run d)] at run
  by_contra invalid
  rw [if_pos (by simpa using invalid)] at run
  cases run

theorem ensureMounted_held {ok : Bool} (held : b.Held rounds)
    (run : ensureMounted b = some (ok, b')) :
    b'.Held rounds ∧ b'.curSubpath = b.curSubpath ∧ (ok = true → b'.mounted = true) := by
  obtain ⟨mounted, rfl, rfl⟩ | ⟨unmounted, d', rfl, idle⟩ := ensureMounted_cases held.healthy run
  · exact ⟨held, rfl, fun _ => mounted⟩
  · have empty : b.curSubpath = [] := held.inside.resolve_right fun inside => by
      simp [unmounted] at inside
    exact ⟨⟨⟨held.selected.1, held.selected.2⟩, idle.1, fun _ => idle.settled, held.short,
      .inl empty⟩, rfl, id⟩

theorem diropen_sameVolume {path : List UInt8} {d d' : Driver} {result : Except Int DirIter}
    (settled : Settled d) (run : fatDiropenPath rounds path d = some (result, d')) :
    SameVolume d d' :=
  fatDiropenPath_keeps (readFatSec_sameVolume d) rounds path d (.refl settled) _ d' run

theorem Kernel.Held.read (held : b.Held rounds) {d' : Driver} (same : SameVolume b.fat d') :
    { b with fat := d' }.Held rounds where
  selected := ⟨held.selected.1, held.selected.2⟩
  healthy := same.settled'.1.1
  settled := fun _ => same.settled'
  short := held.short
  inside := held.inside.imp id fun ⟨mounted, names, nonempty, isNames, spells, walks⟩ =>
    ⟨mounted, names, nonempty, isNames, spells, walks.again same rfl rfl⟩

/-- The check and the assignment keep the invariant when the text spells the directory. -/
theorem chdirTo_held (held : b.Held rounds) (mounted : b.mounted = true)
    (short : ns.length ≤ 39)
    (clear : (∃ names, (∀ name ∈ names, IsName name) ∧ ns = joinPath names) ∨
      ∀ it d', fatDiropenPath rounds (b.dirPath ns) b.fat ≠ some (.ok it, d'))
    (run : chdirTo rounds ns b = some (code, b')) : b'.Held rounds := by
  obtain ⟨rfl, rfl, rfl⟩ | ⟨nonempty, result, d', walk, outcome⟩ := chdirTo_cases run
  · exact ⟨⟨held.selected.1, held.selected.2⟩, held.healthy, held.settled, Nat.zero_le _, .inl rfl⟩
  have same := diropen_sameVolume (held.settled mounted) walk
  obtain ⟨error, rfl, rfl, rfl⟩ | ⟨it, rfl, rfl, rfl⟩ := outcome
  · exact held.read same
  obtain ⟨names, isNames, rfl⟩ := clear.resolve_right fun refused => refused it d' walk
  have whole : (joinPath names).take 39 = joinPath names := List.take_of_length_le short
  have valid := valid_of_diropen walk
  rw [diropen_join held.selected isNames short valid] at walk
  have walks : b.Walks rounds names := ⟨valid, it, d', walk⟩
  refine ⟨⟨held.selected.1, held.selected.2⟩, same.settled'.1.1, fun _ => same.settled', by simp,
    .inr ⟨mounted, names, ?_, isNames, whole, walks.again same rfl rfl⟩⟩
  rintro rfl
  exact nonempty rfl

theorem chdirTarget_short {cur text : List UInt8}
    (target : chdirTarget cur text = some ns) : ns.length ≤ 39 := by
  unfold chdirTarget at target
  split at target
  · obtain rfl := Option.some.inj target
    split <;> simp
  · split at target
    · cases target
    · obtain rfl := Option.some.inj target
      simp [popPath]
  · cases target
  · obtain rfl := Option.some.inj target
    simp

/-- A clear call keeps the invariant. -/
theorem dExtChdir_held (held : b.Held rounds) (clear : ∀ bytes ∈ arg, Clear rounds b bytes)
    (run : dExtChdir rounds arg b = some (code, b')) : b'.Held rounds := by
  obtain ⟨ok, b₁, mounts, outcome⟩ := dExtChdir_cases run
  obtain ⟨held₁, subpath, isMounted⟩ := ensureMounted_held held mounts
  obtain ⟨-, rfl⟩ | ⟨rfl, bytes, rfl, outcome⟩ := outcome
  · exact held₁
  obtain ⟨-, -, rfl⟩ | ⟨ns, target, run⟩ := outcome
  · exact held₁
  have spelled := (clear bytes rfl).spelled
  rw [← subpath] at spelled
  exact chdirTo_held held₁ (isMounted rfl) (chdirTarget_short target)
    ((spelled ns target).imp id fun refuses => refuses b₁ mounts) run

theorem Reached.held (reached : Reached rounds b) : b.Held rounds := by
  induction reached with
  | start fresh => exact fresh.held
  | step before clear run ih => exact dExtChdir_held ih clear run

/-- A call that fails leaves the subpath. -/
theorem dExtChdir_failed (held : b.Held rounds)
    (run : dExtChdir rounds arg b = some (code, b')) (failed : code ≠ 0) :
    b'.curSubpath = b.curSubpath := by
  obtain ⟨ok, b₁, mounts, outcome⟩ := dExtChdir_cases run
  obtain ⟨-, subpath, -⟩ := ensureMounted_held held mounts
  obtain ⟨-, rfl⟩ | ⟨rfl, bytes, rfl, outcome⟩ := outcome
  · exact subpath
  obtain ⟨-, rfl, -⟩ | ⟨ns, -, run⟩ := outcome
  · exact absurd rfl failed
  obtain ⟨-, rfl, -⟩ | ⟨-, result, d', -, outcome⟩ := chdirTo_cases run
  · exact absurd rfl failed
  obtain ⟨error, -, -, rfl⟩ | ⟨it, -, rfl, -⟩ := outcome
  · exact subpath
  · exact absurd rfl failed

theorem chdirTarget_single {cur text : List UInt8} (single : SingleName text) :
    chdirTarget cur text = some ((cur ++ 47 :: text).take 39) := by
  obtain ⟨nonempty, noSlash, -, notDots⟩ := single
  unfold chdirTarget
  split
  · simp at noSlash
  · exact absurd rfl notDots
  · exact absurd rfl nonempty
  · rfl

/-- Behind a directory that is spelled, the check succeeds and the text is taken. -/
theorem chdirTo_spelled {names : List (List UInt8)} (selected : b.Selected)
    (isNames : ∀ name ∈ names, IsName name) (nonempty : names ≠ [])
    (short : (joinPath names).length ≤ 39) (walks : b.Walks rounds names) :
    ∃ b', chdirTo rounds (joinPath names) b = some (0, b') ∧ b'.curSubpath = joinPath names := by
  obtain ⟨valid, it, d', walk⟩ := walks
  rw [← diropen_join selected isNames short valid] at walk
  have some : joinPath names ≠ [] := by
    cases names with
    | nil => exact absurd rfl nonempty
    | cons name names => simp
  have call : callFat (fatDiropenPath rounds (b.dirPath (joinPath names))) b =
      Option.some (.ok it, { b with fat := d' }) := by
    rw [callFat, walk]
    rfl
  refine ⟨{ b with fat := d', curSubpath := (joinPath names).take 39 }, ?_,
    List.take_of_length_le short⟩
  rw [chdirTo, if_neg some, Prog.get_bind_run, Prog.bind_eq_of_run call]
  rfl

theorem dExtChdir_of_target {bytes : List UInt8} (mounted : b.mounted = true)
    (target : chdirTarget b.curSubpath (cString bytes) = some ns) :
    dExtChdir rounds (some bytes) b = chdirTo rounds ns b := by
  rw [dExtChdir, Prog.bind_eq_of_run (ensureMounted_of_mounted mounted), if_neg (by decide),
    Prog.get_bind_run, target]

/-- The way back from a single component. -/
theorem dExtChdir_back {bytes : List UInt8} {b₁ : Kernel} (held : b.Held rounds)
    (single : SingleName (cString bytes)) (room : b.curSubpath.length < 39)
    (run : dExtChdir rounds (some bytes) b = some (0, b₁)) :
    ∃ b₂, dExtChdir rounds (some [46, 46]) b₁ = some (0, b₂) ∧
      b₂.curSubpath = b.curSubpath := by
  obtain ⟨ok, bm, mounts, outcome⟩ := dExtChdir_cases run
  obtain ⟨held, subpath, isMounted⟩ := ensureMounted_held held mounts
  rw [← subpath] at room ⊢
  obtain ⟨failed, -⟩ | ⟨rfl, bytes', same, outcome⟩ := outcome
  · cases failed
  obtain rfl := Option.some.inj same
  rw [chdirTarget_single single] at outcome
  obtain ⟨none, -⟩ | ⟨ns, target, run⟩ := outcome
  · cases none
  have cut : ns = bm.curSubpath ++ 47 :: (cString bytes).take (38 - bm.curSubpath.length) := by
    rw [← Option.some.inj target, List.take_append, List.take_of_length_le (by omega),
      show 39 - bm.curSubpath.length = 38 - bm.curSubpath.length + 1 by omega,
      List.take_succ_cons]
  have short := chdirTarget_short ((chdirTarget_single single).trans target)
  obtain ⟨empty, -⟩ | ⟨nonempty, result, d', walk, outcome⟩ := chdirTo_cases run
  · simp [cut] at empty
  obtain ⟨-, -, failed, -⟩ | ⟨it, rfl, -, rfl⟩ := outcome
  · cases failed
  have pop : popPath (ns.take 39) = bm.curSubpath := by
    rw [List.take_of_length_le short, cut, popPath_append, List.take_of_length_le held.short]
    exact fun slash => single.noSlash (List.mem_of_mem_take slash)
  have target' : chdirTarget (ns.take 39) [46, 46] = some bm.curSubpath := by
    rw [chdirTarget, if_neg (by rwa [List.take_of_length_le short]), pop]
  have mounted : bm.mounted = true := isMounted rfl
  have same := diropen_sameVolume (held.settled mounted) walk
  have back : dExtChdir rounds (some [46, 46]) { bm with fat := d', curSubpath := ns.take 39 } =
      chdirTo rounds bm.curSubpath { bm with fat := d', curSubpath := ns.take 39 } :=
    dExtChdir_of_target mounted target'
  rw [back]
  obtain empty | ⟨-, names, some, isNames, spells, walks⟩ := held.inside
  · rw [empty]
    exact ⟨{ bm with fat := d', curSubpath := [] }, rfl, rfl⟩
  · rw [spells]
    have shorter : (joinPath names).length ≤ 39 := spells ▸ held.short
    refine chdirTo_spelled ?_ isNames some shorter (walks.again same rfl rfl)
    exact ⟨held.selected.1, held.selected.2⟩

/-- What holds of the current directory in a state: it is one, a call that fails leaves it,
and `..` leads back from a single component. -/
structure Kernel.ChdirMeets (b : Kernel) (rounds : Nat) : Prop where
  directory : b.InDirectory rounds
  failed : ∀ arg code b', dExtChdir rounds arg b = some (code, b') → code ≠ 0 →
    b'.curSubpath = b.curSubpath
  back : ∀ bytes b₁, SingleName (cString bytes) → Clear rounds b bytes →
    dExtChdir rounds (some bytes) b = some (0, b₁) →
    ∃ b₂, dExtChdir rounds (some [46, 46]) b₁ = some (0, b₂) ∧ b₂.curSubpath = b.curSubpath

/-- The volume of `smallVolume` with an empty directory `D` in cluster 5. -/
def dirVolume : Nat → Sector
  | 1 | 2 => Buffer.zero.blit 0 [0xF8, 0xFF, 0xFF, 0x03, 0x40, 0x00, 0xFF, 0xFF, 0xFF]
  | 3 => (((smallVolume 3).blit 32 (68 :: List.replicate 10 32)).blit 43 [0x10]).blit 58 [5, 0]
  | 7 => ((((Buffer.zero.blit 0 (46 :: List.replicate 10 32)).blit 11 [0x10]).blit 26 [5, 0]).blit
      32 (46 :: 46 :: List.replicate 9 32)).blit 43 [0x10]
  | lba => smallVolume lba

/-- The volume is mounted as drive A, user 0. -/
def dirKernel : Kernel :=
  { fat := { Driver.initial dirVolume 40 with m := smallMount }
    mounted := true, curDrive := 0, curUser := 0, curSubpath := []
    fhandles := fun _ => { inUse := false, generation := 0, file := FatFile.unused }
    nextGeneration := 1, dma := none }

theorem dirKernel_fresh : dirKernel.Fresh where
  selected := ⟨by decide, by decide⟩
  subpath := rfl
  healthy := ⟨⟨rfl, rfl⟩, rfl⟩
  settled := fun _ => Idle.settled ⟨⟨⟨rfl, rfl⟩, rfl⟩, rfl⟩

/-- A path of components does not end with a slash. -/
theorem joinPath_last {names : List (List UInt8)} (nonempty : names ≠ [])
    (parts : ∀ name ∈ names, name ≠ [] ∧ 47 ∉ name) : (joinPath names).getLast? ≠ some 47 := by
  obtain ⟨init, last, rfl⟩ := (List.eq_nil_or_concat' names).resolve_left nonempty
  obtain ⟨chars, noSlash⟩ := parts last (by simp)
  obtain ⟨front, c, rfl⟩ := (List.eq_nil_or_concat' last).resolve_left chars
  have whole : joinPath (init ++ [front ++ [c]]) = (joinPath init ++ 47 :: front) ++ [c] := by
    simp [joinPath]
  rw [whole, List.getLast?_concat]
  rintro ⟨⟩
  simp at noSlash

end Runs

end Ncd15.Bdos
