import Ncd15.Xcpm.Arguments

/-!
# The arguments that a command gets

`run_line` behind its expansion: the redirections are taken out, a redirected command's
arguments are saved at the end of the scratch window, and then BDOS 116 reads the redirected
file into the window, over the saved arguments when the file is long.
-/

namespace Ncd15.Xcpm

open Ncd15.Library

section Source

/-- A pointer in `argv`: into `expanded`, or into the window. -/
inductive ArgRef
  | expanded (off : Nat)
  | saved (pos : Nat)
  deriving DecidableEq

/-- `new_argv`, `redir_out` with `redir_append`, and `redir_in`. -/
structure Redirects where
  argv : List Nat
  output : Option (Nat × Bool)
  input : Option Nat

/-- The loop that takes the redirections out of `argv`. -/
def stripRedirects (text : Nat → List UInt8) : List Nat → Redirects → Redirects
  | [], r => r
  | [off], r => { r with argv := r.argv ++ [off] }
  | off :: file :: rest, r =>
      if text off = [62] ∨ text off = [62, 62] then
        stripRedirects text rest { r with output := some (file, text off = [62, 62]) }
      else if text off = [60] then stripRedirects text rest { r with input := some file }
      else stripRedirects text (file :: rest) { r with argv := r.argv ++ [off] }

/-- `try_drive_switch` takes the line. -/
def isDriveSwitch (tok : List UInt8) : Bool :=
  match tok with
  | [c, 58] => 65 ≤ toUpper c && toUpper c ≤ 80
  | _ => false

/-- `run_line` in front of BDOS 116. -/
structure Prepared where
  expanded : Watched expandedSize
  window : Window
  saved : List (Nat × List UInt8)
  input : Option (List UInt8)
  argv : List ArgRef
  /-- What `argv[0]` is, also when no argument is left. -/
  name : ArgRef

/-- The saved arguments, for a line with a redirection. -/
def savedArgs (expanded : Watched expandedSize) (r : Redirects) : List (Nat × List UInt8) :=
  if r.output.isSome || r.input.isSome then
    layoutArgs 0 (r.argv.map (textAt expanded.buf))
  else []

/-- The arguments of a line and its redirections. -/
def Expansion.redirects (e : Expansion) : Redirects :=
  stripRedirects (textAt e.expanded.buf) e.argv { argv := [], output := none, input := none }

/-- From the arguments of a line to the copy of them in the window. -/
def prepareArgs (e : Expansion) (window : Window) (first : Nat) : Prepared :=
  let r := e.redirects
  let saved := savedArgs e.expanded r
  let argv := saved.map (fun slot => ArgRef.saved slot.1) ++
    (r.argv.drop saved.length).map ArgRef.expanded
  { expanded := e.expanded
    window := saved.foldl (fun w slot => w.storeString slot.1 slot.2) window
    saved
    input := r.input.map (textAt e.expanded.buf)
    argv
    name := argv.headD (.expanded first) }

/-- `run_line` up to the redirections: the buffer, and what is dispatched if anything is. -/
def prepareLine (env : Env) (search : List UInt8 → List (List UInt8)) (line : List UInt8)
    (expanded : Watched expandedSize) (window : Window) :
    Option (Watched expandedSize × Option Prepared) := do
  let e ← expandLine env search 16 line { expanded, argv := [], eoff := 0 }
  match e.argv with
  | [] => some (e.expanded, none)
  | first :: _ =>
      if isDriveSwitch (textAt e.expanded.buf first) then some (e.expanded, none)
      else some (e.expanded, some (prepareArgs e window first))

/-- The window when a command is dispatched; `file` is what BDOS 116 finds under a name. -/
def Prepared.dispatchWindow (p : Prepared) (file : List UInt8 → FileRead) : Window :=
  match p.input with
  | none => p.window
  | some name => inrdBegin p.window (file name)

end Source

section Law

/-- The string behind a pointer ends inside its buffer; in the window it is one that was
saved. -/
def ArgRef.Intact (expanded : Buffer expandedSize) (w : Window) (saved : List (Nat × List UInt8)) :
    ArgRef → Prop
  | .expanded off => ∃ i, off ≤ i ∧ i < expandedSize ∧ expanded.get i = 0
  | .saved pos => (∃ s, (pos, s) ∈ saved) ∧ ∀ s, (pos, s) ∈ saved → StringHolds w pos s

/-- What has to hold of a line: no store leaves the buffers, no argument changes when others
are expanded behind it, and the pointers that a command gets lead to strings. -/
def LineMeets (env : Env) (search : List UInt8 → List (List UInt8)) (file : List UInt8 → FileRead)
    (line : List UInt8) (expanded : Watched expandedSize) (window : Window) : Prop :=
  ∃ expanded' prepared, prepareLine env search line expanded window = some (expanded', prepared) ∧
    expanded'.inside = true ∧
    (∀ n ≤ 16, ∃ e, expandLine env search n line { expanded, argv := [], eoff := 0 } = some e ∧
      ∀ off ∈ e.argv, textAt expanded'.buf off = textAt e.expanded.buf off) ∧
    ∀ p, prepared = some p →
      (∀ slot ∈ p.saved, argvBase ≤ slot.1 ∧ slot.1 + slot.2.length < windowSize) ∧
      ∀ ref ∈ p.name :: p.argv, ref.Intact expanded'.buf (p.dispatchWindow file) p.saved

/-- The file that is read behind the saved arguments changes none of their bytes. -/
def FileRead.Spares (saved : List (Nat × List UInt8)) : FileRead → Prop
  | .notFound => True
  | .failed bytes | .read bytes =>
      ∀ slot ∈ saved, ∀ i ≤ slot.2.length, ∀ j < (bytes.take inrdMax).length,
        inrdBase + dataOffset + j = slot.1 + i → bytes.getD j 0 = (slot.2 ++ [0]).getD i 0

/-- BDOS 116 is not called for the line, or spares its saved arguments. -/
def LineSpared (env : Env) (search : List UInt8 → List (List UInt8)) (file : List UInt8 → FileRead)
    (line : List UInt8) (expanded : Watched expandedSize) (window : Window) : Prop :=
  ∀ expanded' p name, prepareLine env search line expanded window = some (expanded', some p) →
    p.input = some name → (file name).Spares p.saved

/-- What the lines before have left in `expanded`. -/
inductive ExpandedReached : Watched expandedSize → Prop
  | boot : ExpandedReached { buf := Buffer.zero, inside := true }
  | line {env : Env} {search : List UInt8 → List (List UInt8)} {line : List UInt8}
      {window : Window} {expanded expanded' : Watched expandedSize} {prepared : Option Prepared}
      (reached : ExpandedReached expanded)
      (run : prepareLine env search line expanded window = some (expanded', prepared)) :
      ExpandedReached expanded'

variable {env : Env} {search : List UInt8 → List (List UInt8)} {file : List UInt8 → FileRead}
  {line : List UInt8} {expanded : Watched expandedSize} {window : Window} {e : Expansion}

theorem ExpandedReached.packed (reached : ExpandedReached expanded) :
    Expansion.Packed { expanded, argv := [], eoff := 0 } := by
  induction reached with
  | boot => exact ⟨rfl, Buffer.get_zero _, Nat.zero_le _, nofun⟩
  | @line env search line window expanded expanded' prepared reached run ih =>
      obtain ⟨e, expansion, rest⟩ := Option.bind_eq_some_iff.mp run
      have packed := (ih.line expansion).1
      have same : e.expanded = expanded' := by
        split at rest
        · exact (Prod.mk.inj (Option.some.inj rest)).1
        · split at rest
          · exact (Prod.mk.inj (Option.some.inj rest)).1
          · exact (Prod.mk.inj (Option.some.inj rest)).1
      exact ⟨same ▸ packed.inside, same ▸ packed.last, Nat.zero_le _, nofun⟩

theorem stripRedirects_argv (text : Nat → List UInt8) (offs : List Nat) (r : Redirects) :
    ∀ off ∈ (stripRedirects text offs r).argv, off ∈ r.argv ∨ off ∈ offs := by
  induction offs, r using stripRedirects.induct text with
  | case1 r => exact fun off mem => .inl mem
  | case2 off r => exact fun off' mem => by simpa [stripRedirects] using mem
  | case3 off file rest r out ih =>
      intro off' mem
      rw [stripRedirects, if_pos out] at mem
      exact (ih off' mem).imp_right fun later =>
        List.mem_cons_of_mem _ (List.mem_cons_of_mem _ later)
  | case4 off file rest r out inp ih =>
      intro off' mem
      rw [stripRedirects, if_neg out, if_pos inp] at mem
      exact (ih off' mem).imp_right fun later =>
        List.mem_cons_of_mem _ (List.mem_cons_of_mem _ later)
  | case5 off file rest r out inp ih =>
      intro off' mem
      rw [stripRedirects, if_neg out, if_neg inp] at mem
      rcases ih off' mem with kept | later
      · rcases List.mem_append.mp kept with old | new
        · exact .inl old
        · exact .inr (by simp_all)
      · exact .inr (List.mem_cons_of_mem _ later)

theorem nul_notMem_textAt (buf : Buffer expandedSize) (off : Nat) : 0 ∉ textAt buf off := by
  intro mem
  simpa using List.mem_takeWhile_imp mem

theorem savedArgs_bounds (expanded : Watched expandedSize) (r : Redirects) :
    ∀ slot ∈ savedArgs expanded r, argvBase ≤ slot.1 ∧ slot.1 + slot.2.length < windowSize := by
  unfold savedArgs
  split
  · exact layoutArgs_bounds 0 _
  · exact nofun

theorem savedArgs_hold (expanded : Watched expandedSize) (r : Redirects) (window : Window) :
    ∀ slot ∈ savedArgs expanded r, StringHolds
      ((savedArgs expanded r).foldl (fun w slot => w.storeString slot.1 slot.2) window)
      slot.1 slot.2 := by
  unfold savedArgs
  split
  · refine stringHolds_layoutArgs window fun arg mem => ?_
    obtain ⟨off, -, rfl⟩ := List.mem_map.mp mem
    exact nul_notMem_textAt _ _
  · exact nofun

theorem stored_iff {w : Window} {pos : Nat} {s : List UInt8} :
    w.slice pos (s.length + 1) = s ++ [0] ↔
      ∀ i ≤ s.length, w.get (pos + i) = (s ++ [0]).getD i 0 := by
  constructor
  · intro stored i upTo
    rw [← stored, Buffer.getD_slice w pos (Nat.lt_succ_of_le upTo)]
  · intro chars
    apply List.ext_getElem (by simp)
    intro i inSlice inText
    have bound : i < s.length + 1 := by simpa using inSlice
    have char := chars i (Nat.le_of_lt_succ bound)
    rw [← Buffer.getD_slice w pos bound, List.getD_eq_getElem _ _ inSlice,
      List.getD_eq_getElem _ _ inText] at char
    exact char

theorem get_inrdBegin (w : Window) {found : FileRead} {bytes : List UInt8} {i : Nat}
    (delivers : found = .failed bytes ∨ found = .read bytes)
    (after : inrdBase + dataOffset ≤ i) :
    (inrdBegin w found).get i = (w.blit (inrdBase + dataOffset) (bytes.take inrdMax)).get i := by
  rcases delivers with rfl | rfl
  · rfl
  · exact get_announce _ _ (.inr (by grind))

/-- A saved argument is left as it is exactly when the bytes that fall on it are its own. -/
theorem stringHolds_inrdBegin {w : Window} {pos : Nat} {s : List UInt8} (found : FileRead)
    (holds : StringHolds w pos s) (after : argvBase ≤ pos) :
    StringHolds (inrdBegin w found) pos s ↔ found.Spares [(pos, s)] := by
  have delivered (bytes : List UInt8) (delivers : found = .failed bytes ∨ found = .read bytes) :
      StringHolds (inrdBegin w found) pos s ↔
        ∀ i ≤ s.length, ∀ j < (bytes.take inrdMax).length,
          inrdBase + dataOffset + j = pos + i → bytes.getD j 0 = (s ++ [0]).getD i 0 := by
    have chars := stored_iff.mp holds.stored
    have fits := holds.fits
    have behind : inrdBase + dataOffset ≤ pos := Nat.le_trans (by decide) after
    have taken {j : Nat} (before : j < (bytes.take inrdMax).length) :
        (bytes.take inrdMax).getD j 0 = bytes.getD j 0 := by
      rw [List.getD_eq_getElem?_getD, List.getD_eq_getElem?_getD,
        List.getElem?_take_of_lt (before.trans_le (List.length_take_le _ _))]
    have char (i : Nat) (upTo : i ≤ s.length) : (inrdBegin w found).get (pos + i) =
        (w.blit (inrdBase + dataOffset) (bytes.take inrdMax)).get (pos + i) :=
      get_inrdBegin w delivers (by omega)
    constructor
    · intro holds' i upTo j before same
      have kept := stored_iff.mp holds'.stored i upTo
      rw [char i upTo, Buffer.get_blit_of_mem _ (by omega) (by omega) (by grind)] at kept
      rw [← kept, ← same, Nat.add_sub_cancel_left, taken before]
    · intro spares
      refine ⟨fits, holds.noNul, stored_iff.mpr fun i upTo => ?_⟩
      rw [char i upTo]
      by_cases read : pos + i < inrdBase + dataOffset + (bytes.take inrdMax).length
      · have before : pos + i - (inrdBase + dataOffset) < (bytes.take inrdMax).length := by omega
        rw [Buffer.get_blit_of_mem _ (by omega) read (by grind), taken before]
        exact spares i upTo _ before (by omega)
      · rw [Buffer.get_blit_of_ge _ (Nat.not_lt.mp read), chars i upTo]
  cases found with
  | notFound => exact iff_of_true holds trivial
  | failed bytes => simpa [FileRead.Spares] using delivered bytes (.inl rfl)
  | read bytes => simpa [FileRead.Spares] using delivered bytes (.inr rfl)

theorem prepareLine_run {expanded' : Watched expandedSize} {p : Prepared}
    (run : prepareLine env search line expanded window = some (expanded', some p)) :
    ∃ e first, expandLine env search 16 line { expanded, argv := [], eoff := 0 } = some e ∧
      first ∈ e.argv ∧ expanded' = e.expanded ∧ p = prepareArgs e window first := by
  obtain ⟨e, expansion, rest⟩ := Option.bind_eq_some_iff.mp run
  split at rest
  · cases (Prod.mk.inj (Option.some.inj rest)).2
  next first others argv =>
    split at rest
    · cases (Prod.mk.inj (Option.some.inj rest)).2
    · obtain ⟨rfl, prepared⟩ := Prod.mk.inj (Option.some.inj rest)
      exact ⟨e, first, expansion, argv ▸ List.mem_cons_self, rfl,
        (Option.some.inj prepared).symm⟩

theorem FileRead.spares_iff (saved : List (Nat × List UInt8)) (found : FileRead) :
    found.Spares saved ↔ ∀ slot ∈ saved, found.Spares [slot] := by
  cases found <;> simp [FileRead.Spares]

/-- The saved arguments when a command gets them. -/
theorem saved_hold_iff (e : Expansion) (window : Window) (first : Nat) :
    (∀ slot ∈ (prepareArgs e window first).saved,
      StringHolds ((prepareArgs e window first).dispatchWindow file) slot.1 slot.2) ↔
      ∀ name, (prepareArgs e window first).input = some name →
        (file name).Spares (prepareArgs e window first).saved := by
  have bounds := savedArgs_bounds e.expanded e.redirects
  have held := savedArgs_hold e.expanded e.redirects window
  rw [Prepared.dispatchWindow]
  cases (prepareArgs e window first).input with
  | none => exact iff_of_true held nofun
  | some name =>
      simp only [Option.some.injEq, forall_eq']
      rw [FileRead.spares_iff]
      exact forall₂_congr fun slot mem =>
        stringHolds_inrdBegin (file name) (held slot mem) (bounds slot mem).1

/-- The pointers of a prepared line are intact when a command gets them exactly when BDOS 116
has spared what is saved. -/
theorem prepareArgs_intact (packed : e.Packed) {first : Nat} (mem : first ∈ e.argv) :
    (∀ ref ∈ (prepareArgs e window first).name :: (prepareArgs e window first).argv,
      ref.Intact e.expanded.buf ((prepareArgs e window first).dispatchWindow file)
        (prepareArgs e window first).saved) ↔
      ∀ name, (prepareArgs e window first).input = some name →
        (file name).Spares (prepareArgs e window first).saved := by
  rw [← saved_hold_iff e window first]
  generalize w : (prepareArgs e window first).dispatchWindow file = w'
  have kept := stripRedirects_argv (textAt e.expanded.buf) e.argv
    { argv := [], output := none, input := none }
  have intact {off : Nat} (mem : off ∈ e.argv) :
      (ArgRef.expanded off).Intact e.expanded.buf w' (prepareArgs e window first).saved := by
    obtain ⟨i, after, before, nul⟩ := packed.ends off mem
    exact ⟨i, after, before.trans_le packed.eoff, nul⟩
  constructor
  · intro refs slot saved
    exact (refs (.saved slot.1) (List.mem_cons_of_mem _
      (List.mem_append_left _ (List.mem_map_of_mem saved)))).2 slot.2 saved
  · intro held
    have args : ∀ ref ∈ (prepareArgs e window first).argv, ref.Intact e.expanded.buf w'
        (prepareArgs e window first).saved := by
      intro ref listed
      rcases List.mem_append.mp listed with saved | left
      · obtain ⟨slot, mem, rfl⟩ := List.mem_map.mp saved
        exact ⟨⟨slot.2, mem⟩, fun s mem => held (slot.1, s) mem⟩
      · obtain ⟨off, mem, rfl⟩ := List.mem_map.mp left
        rcases kept off (List.mem_of_mem_drop mem) with none | mem
        · cases none
        · exact intact mem
    intro ref listed
    rcases List.mem_cons.mp listed with rfl | listed
    · change ArgRef.Intact _ _ _ ((prepareArgs e window first).argv.headD (.expanded first))
      cases all : (prepareArgs e window first).argv with
      | nil => exact intact mem
      | cons head rest => exact args head (all ▸ List.mem_cons_self)
    · exact args ref listed

end Law

end Ncd15.Xcpm
