import Ncd15.Library.PosixPath
import Mathlib.Data.Char
import Mathlib.Data.List.Lex
import Mathlib.Data.List.Sort

/-!
# The paths that the file servers open

The path that `tftpd.py` makes of a name from the network, and the calls of the operating
system that its handlers make.  The test for a path below the root appends a slash to the
root, which the text `//` already ends in, and a write request for the root itself has the
directory above it made.
-/

namespace Ncd15.Tftp.Fs

open Ncd15.Library

section SafePath

/-- `name.replace("\\", "/").lstrip("/")`. -/
def relative (name : Text) : Text :=
  (name.map fun c => if c = '\\' then '/' else c).dropWhile (· = '/')

def safePath (cwd root name : Text) : Option Text :=
  let full := normpath (pathJoin root (relative name))
  let rootAbs := abspath cwd root
  let fullAbs := abspath cwd full
  if fullAbs = rootAbs ∨ rootAbs ++ ['/'] <+: fullAbs then some fullAbs else none

end SafePath

section Handlers

abbrev Byte := BitVec 8

/-- A call of the operating system that is given paths. -/
inductive Call
  | isfile (path : Text)
  | isdir (path : Text)
  | exists_ (path : Text)
  | getsize (path : Text)
  | openRead (path : Text)
  | openWrite (path : Text)
  | makedirs (path : Text)
  | listdir (path : Text)
  | rmdir (path : Text)
  | remove (path : Text)
  | rename (src dst : Text)
  | mkdir (path : Text)
  deriving DecidableEq

def Call.paths : Call → List Text
  | isfile path | isdir path | exists_ path | getsize path | openRead path | openWrite path
  | makedirs path | listdir path | rmdir path | remove path | mkdir path => [path]
  | rename src dst => [src, dst]

/-- The operating system answers a call by the calls before it.  A call that fails raises
`OSError` with a text, and what `os.listdir` returns are names. -/
structure Os where
  test : List Call → Call → Bool
  act : List Call → Call → Except Text Unit
  list : List Call → Text → Except Text (List Text)
  list_isName : ∀ {calls path entries}, list calls path = .ok entries →
    ∀ name ∈ entries, IsPathName name

/-- What a handler sends, the file that it goes on with, or the exception that ends it. -/
inductive Reply
  | sendErr (code : Nat) (msg : Text)
  | serving (path : Text)
  | raised (msg : Text)
  | fsErr (code : Nat) (msg : Text)
  | fsOk (payload : List Byte)
  deriving DecidableEq

/-- A handler and the calls that it makes. -/
abbrev Handler := StateM (List Call)

variable (os : Os) (cwd root : Text) (readonly : Bool)

def Os.ask (call : Call) : Handler Bool := fun calls => (os.test calls call, calls ++ [call])

def Os.run (call : Call) : Handler (Except Text Unit) :=
  fun calls => (os.act calls call, calls ++ [call])

def Os.listdir (path : Text) : Handler (Except Text (List Text)) :=
  fun calls => (os.list calls path, calls ++ [.listdir path])

/-- `mode.lower() in ("octet", "netascii")`. -/
def knownMode (mode : Text) : Bool :=
  mode.map Char.toLower = "octet".toList ∨ mode.map Char.toLower = "netascii".toList

/-- `serve_rrq` until the transfer begins. -/
def serveRrq (filename mode : Text) : Handler Reply := do
  if ¬ knownMode mode then return .sendErr 4 "unsupported mode".toList
  match safePath cwd root filename with
  | none => return .sendErr 1 "file not found".toList
  | some path =>
      if ¬ (← os.ask (.isfile path)) then return .sendErr 1 "file not found".toList
      match ← os.run (.openRead path) with
      | .error e => return .sendErr 2 e
      | .ok _ =>
          match ← os.run (.getsize path) with
          | .error e => return .raised e
          | .ok _ => return .serving path

/-- `serve_wrq` until the transfer begins. -/
def serveWrq (filename mode : Text) : Handler Reply := do
  if readonly then return .sendErr 2 "server is read-only".toList
  if ¬ knownMode mode then return .sendErr 4 "unsupported mode".toList
  match safePath cwd root filename with
  | none => return .sendErr 2 "path escapes root".toList
  | some path =>
      match ← os.run (.makedirs (dirname path)) with
      | .error e => return .sendErr 2 e
      | .ok _ =>
          match ← os.run (.openWrite path) with
          | .error e => return .sendErr 2 e
          | .ok _ => return .serving path

/-- `text.encode("ascii", "replace")`. -/
def asciiReplace (text : Text) : List Byte :=
  text.map fun c => if c.toNat < 128 then BitVec.ofNat 8 c.toNat else 63

/-- An entry of a listing; a directory is marked. -/
def entryBytes (name : Text) (isDir : Bool) : List Byte :=
  asciiReplace (name ++ if isDir then ['/'] else []) ++ [0]

/-- The loop of `fs_handle_list` over the sorted entries. -/
def listEntries (p : Text) : List Text → List Byte → Handler (List Byte)
  | [], buf => return buf
  | name :: entries, buf => do
      let b := entryBytes name (← os.ask (.isdir (pathJoin p name)))
      if 2 + buf.length + b.length > 1400 - 3 then return buf ++ [42, 0]
      else listEntries p entries (buf ++ b)

def fsHandleList (path : Text) : Handler Reply := do
  match if path ≠ [] then safePath cwd root path else some (abspath cwd root) with
  | none => return .fsErr 1 ("not a directory: ".toList ++ path)
  | some p =>
      if ¬ (← os.ask (.isdir p)) then return .fsErr 1 ("not a directory: ".toList ++ path)
      match ← os.listdir p with
      | .error e => return .fsErr 5 e
      | .ok entries =>
          return .fsOk (← listEntries os p (entries.mergeSort fun a b => decide (a ≤ b)) [])

def fsHandleDelete (path : Text) : Handler Reply := do
  if readonly then return .fsErr 2 "server is read-only".toList
  match safePath cwd root path with
  | none => return .fsErr 1 ("no such file: ".toList ++ path)
  | some p =>
      if ¬ (← os.ask (.exists_ p)) then return .fsErr 1 ("no such file: ".toList ++ path)
      let removal := if ← os.ask (.isdir p) then Call.rmdir p else Call.remove p
      match ← os.run removal with
      | .error e => return .fsErr 5 e
      | .ok _ => return .fsOk []

def fsHandleRename (old new : Text) : Handler Reply := do
  if readonly then return .fsErr 2 "server is read-only".toList
  match safePath cwd root old, safePath cwd root new with
  | some po, some pn =>
      if ¬ (← os.ask (.exists_ po)) then return .fsErr 1 ("no such path: ".toList ++ old)
      if ← os.ask (.exists_ pn) then return .fsErr 3 ("target exists: ".toList ++ new)
      match ← os.run (.rename po pn) with
      | .error e => return .fsErr 5 e
      | .ok _ => return .fsOk []
  | _, _ => return .fsErr 2 "path escapes root".toList

def fsHandleMkdir (path : Text) : Handler Reply := do
  if readonly then return .fsErr 2 "server is read-only".toList
  match safePath cwd root path with
  | none => return .fsErr 2 "path escapes root".toList
  | some p =>
      if ← os.ask (.exists_ p) then return .fsErr 3 ("exists: ".toList ++ path)
      match ← os.run (.mkdir p) with
      | .error e => return .fsErr 5 e
      | .ok _ => return .fsOk []

/-- The requests of both servers, with the names they carry. -/
inductive Request
  | rrq (filename mode : Text)
  | wrq (filename mode : Text)
  | list (path : Text)
  | delete (path : Text)
  | rename (old new : Text)
  | mkdir (path : Text)

def handle : Request → Handler Reply
  | .rrq filename mode => serveRrq os cwd root filename mode
  | .wrq filename mode => serveWrq os cwd root readonly filename mode
  | .list path => fsHandleList os cwd root path
  | .delete path => fsHandleDelete os cwd root readonly path
  | .rename old new => fsHandleRename os cwd root readonly old new
  | .mkdir path => fsHandleMkdir os cwd root readonly path

end Handlers

section Lexical

/-- Where a name leads from the root, component by component. -/
def lexical (root name : Text) : List Text := resolve (namesOf root) ((relative name).splitOn '/')

/-- A path is the root or lies below it. -/
def Below (root path : Text) : Prop :=
  initialSlashes path = initialSlashes root ∧ namesOf root <+: namesOf path

instance (root path : Text) : Decidable (Below root path) :=
  inferInstanceAs (Decidable (_ ∧ _))

/-- The path for a name, unless it leads out of the root. -/
def confined (root name : Text) : Option Text :=
  if namesOf root <+: lexical root name then
    some (absText (initialSlashes root) (lexical root name))
  else none

/-- An absolute path that is normalised. -/
structure IsRoot (root : Text) : Prop where
  absolute : root.head? = some '/'
  normal : normpath root = root

variable {root name path : Text} {names : List Text}

theorem IsRoot.text (isRoot : IsRoot root) :
    root = absText (initialSlashes root) (namesOf root) := by
  rw [← normpath_rooted isRoot.absolute, isRoot.normal]

theorem IsRoot.slashes (isRoot : IsRoot root) :
    initialSlashes root = 1 ∨ initialSlashes root = 2 :=
  initialSlashes_rooted isRoot.absolute

/-- The two roots without a name. -/
theorem IsRoot.namesOf_eq_nil_iff (isRoot : IsRoot root) :
    namesOf root = [] ↔ root = ['/'] ∨ root = ['/', '/'] := by
  constructor
  · intro none
    have text := isRoot.text
    rw [none] at text
    rcases isRoot.slashes with one | two
    · rw [one] at text
      exact .inl text
    · rw [two] at text
      exact .inr text
  · rintro (rfl | rfl) <;> decide

theorem lexical_isName (root name : Text) : ∀ part ∈ lexical root name, IsPathName part :=
  resolve_isName (namesOf_isName root) fun _ mem => slash_not_mem_of_mem_splitOn mem

theorem relative_head (name : Text) : (relative name).head? ≠ some '/' := by
  intro slash
  have stop := List.head?_dropWhile_not (· = '/')
    (name.map fun c => if c = '\\' then '/' else c)
  rw [relative] at slash
  rw [slash] at stop
  simp at stop

theorem absText_inj {slashes : Nat} {first second : List Text}
    (isNames : ∀ name ∈ first, IsPathName name) (isNames' : ∀ name ∈ second, IsPathName name) :
    absText slashes first = absText slashes second ↔ first = second := by
  constructor
  · intro same
    calc first = namesOf (absText slashes first) := (namesOf_absText isNames).symm
      _ = namesOf (absText slashes second) := by rw [same]
      _ = second := namesOf_absText isNames'
  · exact congrArg _

/-- The prefix test of the code, on paths of names. -/
theorem absText_slash_prefix_iff {slashes : Nat} {first second : List Text}
    (isNames : ∀ name ∈ first, IsPathName name) (isNames' : ∀ name ∈ second, IsPathName name) :
    absText (slashes + 1) first ++ ['/'] <+: absText (slashes + 1) second ↔
      first ≠ [] ∧ first <+: second ∧ first ≠ second := by
  have bare : absText (slashes + 1) [] = List.replicate slashes '/' ++ ['/'] := by
    rw [absText, List.intercalate_nil, List.append_nil, List.replicate_succ']
  by_cases none : first = []
  · subst none
    rw [bare, absText, List.replicate_succ', List.append_assoc, List.append_assoc,
      List.prefix_append_right_inj, List.prefix_append_right_inj]
    have head := head_intercalate isNames'
    constructor
    · rintro ⟨t, text⟩
      rw [← text] at head
      exact absurd rfl head
    · exact fun all => absurd rfl all.1
  · rw [absText_succ none, List.append_assoc]
    by_cases none' : second = []
    · subst none'
      rw [bare, List.prefix_append_right_inj]
      have long : 2 ≤ (slashed first).length := by
        obtain ⟨name, rest, rfl⟩ := List.exists_cons_of_ne_nil none
        obtain ⟨c, name, rfl⟩ := List.exists_cons_of_ne_nil (isNames _ List.mem_cons_self).nonempty
        simp [slashed]
      constructor
      · intro prefix_
        have short := prefix_.length_le
        rw [List.length_append] at short
        simp only [List.length_singleton] at short
        omega
      · exact fun all => absurd (List.prefix_nil.mp all.2.1) none
    · rw [absText_succ none', List.prefix_append_right_inj, slashed_prefix_iff
        (fun name mem => (isNames name mem).slash) fun name mem => (isNames' name mem).slash]
      exact (and_iff_right none).symm

/-- The whole test of the code. -/
theorem prefix_test_iff {slashes : Nat} {first second : List Text}
    (some_ : slashes = 1 ∨ slashes = 2) (isNames : ∀ name ∈ first, IsPathName name)
    (isNames' : ∀ name ∈ second, IsPathName name) :
    (absText slashes second = absText slashes first ∨
        absText slashes first ++ ['/'] <+: absText slashes second) ↔
      (second = first ∨ (first ≠ [] ∧ first <+: second)) := by
  obtain ⟨before, rfl⟩ : ∃ before, slashes = before + 1 := ⟨slashes - 1, by omega⟩
  rw [absText_inj isNames' isNames, absText_slash_prefix_iff isNames isNames']
  constructor
  · rintro (same | ⟨real, prefix_, -⟩)
    · exact .inl same
    · exact .inr ⟨real, prefix_⟩
  · rintro (same | ⟨real, prefix_⟩)
    · exact .inl same
    · by_cases same : first = second
      · exact .inl same.symm
      · exact .inr ⟨real, prefix_, same⟩

/-- What `safe_path` answers. -/
theorem safePath_eq (isRoot : IsRoot root) (cwd name : Text) :
    safePath cwd root name =
      if lexical root name = namesOf root ∨
          (namesOf root ≠ [] ∧ namesOf root <+: lexical root name) then
        some (absText (initialSlashes root) (lexical root name))
      else none := by
  have full : normpath (pathJoin root (relative name)) =
      absText (initialSlashes root) (lexical root name) := by
    conv_lhs => rw [isRoot.text]
    exact normpath_join isRoot.slashes (namesOf_isName root) (relative_head name)
  have rootAbs : abspath cwd root = root := by
    rw [abspath, if_pos isRoot.absolute, isRoot.normal]
  have fullAbs : abspath cwd (absText (initialSlashes root) (lexical root name)) =
      absText (initialSlashes root) (lexical root name) := by
    rw [abspath, if_pos (head_absText isRoot.slashes),
      normpath_absText isRoot.slashes (lexical_isName root name)]
  have test := prefix_test_iff isRoot.slashes (namesOf_isName root) (lexical_isName root name)
  rw [← isRoot.text] at test
  unfold safePath
  dsimp only
  rw [full, rootAbs, fullAbs]
  exact if_congr test rfl rfl

/-- The path that a handler goes on with. -/
theorem safePath_some (isRoot : IsRoot root) {cwd : Text}
    (some_ : safePath cwd root name = some path) :
    path = absText (initialSlashes root) (lexical root name) ∧
      namesOf root <+: lexical root name := by
  rw [safePath_eq isRoot] at some_
  split at some_
  · rename_i test
    refine ⟨(Option.some.inj some_).symm, ?_⟩
    rcases test with same | below
    · rw [same]
    · exact below.2
  · cases some_

theorem below_absText_iff (isRoot : IsRoot root) (isNames : ∀ name ∈ names, IsPathName name) :
    Below root (absText (initialSlashes root) names) ↔ namesOf root <+: names := by
  rw [Below, initialSlashes_absText isRoot.slashes isNames, namesOf_absText isNames]
  exact and_iff_right rfl

theorem safePath_below (isRoot : IsRoot root) {cwd : Text}
    (some_ : safePath cwd root name = some path) : Below root path := by
  obtain ⟨rfl, below⟩ := safePath_some isRoot some_
  exact (below_absText_iff isRoot (lexical_isName root name)).mpr below

theorem below_self (root : Text) : Below root root := ⟨rfl, List.prefix_rfl⟩

end Lexical

section Asking

variable {α β : Type} {P : Call → Prop} {os : Os}

/-- Every call that a handler makes has a property. -/
def Asks (P : Call → Prop) (h : Handler α) : Prop :=
  ∀ calls, ∃ made, (h calls).2 = calls ++ made ∧ ∀ call ∈ made, P call

theorem Asks.mono {Q : Call → Prop} {h : Handler α} (asks : Asks P h)
    (weaker : ∀ call, P call → Q call) : Asks Q h := by
  intro calls
  obtain ⟨made, log, all⟩ := asks calls
  exact ⟨made, log, fun call mem => weaker call (all call mem)⟩

theorem asks_pure (a : α) : Asks P (pure a : Handler α) := fun calls =>
  ⟨[], (List.append_nil calls).symm, nofun⟩

theorem asks_bind {h : Handler α} {next : α → Handler β} (first : Asks P h)
    (second : ∀ a, Asks P (next a)) : Asks P (h >>= next) := by
  intro calls
  obtain ⟨made, log, all⟩ := first calls
  obtain ⟨later, log', all'⟩ := second (h calls).1 (h calls).2
  refine ⟨made ++ later, ?_, List.forall_mem_append.mpr ⟨all, all'⟩⟩
  change (next (h calls).1 (h calls).2).2 = _
  rw [log', log, List.append_assoc]

theorem asks_ask {call : Call} (holds : P call) : Asks P (os.ask call) := fun _ =>
  ⟨[call], rfl, by simpa using holds⟩

theorem asks_run {call : Call} (holds : P call) : Asks P (os.run call) := fun _ =>
  ⟨[call], rfl, by simpa using holds⟩

/-- A directory is listed for entries that are names. -/
theorem asks_listdir_bind {path : Text} {next : Except Text (List Text) → Handler β}
    (holds : P (.listdir path)) (error : ∀ e, Asks P (next (.error e)))
    (ok : ∀ entries, (∀ name ∈ entries, IsPathName name) → Asks P (next (.ok entries))) :
    Asks P (os.listdir path >>= next) := by
  intro calls
  have rest : Asks P (next (os.list calls path)) := by
    cases listed : os.list calls path with
    | error e => exact error e
    | ok entries => exact ok entries (os.list_isName listed)
  obtain ⟨later, log, all⟩ := rest (calls ++ [.listdir path])
  refine ⟨.listdir path :: later, ?_, List.forall_mem_cons.mpr ⟨holds, all⟩⟩
  change (next (os.list calls path) (calls ++ [.listdir path])).2 = _
  rw [log, List.append_assoc, List.singleton_append]

end Asking

section Inside

variable {os : Os} {cwd root : Text} {readonly : Bool}

/-- All paths of a call are the root or below it. -/
def Inside (root : Text) (call : Call) : Prop := ∀ path ∈ call.paths, Below root path

instance (root : Text) (call : Call) : Decidable (Inside root call) :=
  inferInstanceAs (Decidable (∀ path ∈ call.paths, Below root path))

theorem inside_one {path : Text} {call : Call} (one : call.paths = [path])
    (below : Below root path) : Inside root call := by
  intro p mem
  rw [one] at mem
  rw [List.mem_singleton.mp mem]
  exact below

/-- An entry of a directory below the root. -/
theorem below_entry {p name : Text} (isPath : IsRoot p) (below : Below root p)
    (isName : IsPathName name) : Below root (pathJoin p name) := by
  have relative : name.head? ≠ some '/' := fun head => isName.slash (List.mem_of_head? head)
  have single : resolve (namesOf p) (name.splitOn '/') = namesOf p ++ [name] := by
    have isNames : ∀ part ∈ [name], IsPathName part := by simpa using isName
    have names := resolve_intercalate (namesOf p) isNames
    rwa [List.intercalate_singleton] at names
  have normal : normpath (pathJoin p name) = absText (initialSlashes p) (namesOf p ++ [name]) := by
    conv_lhs => rw [isPath.text]
    rw [normpath_join isPath.slashes (namesOf_isName p) relative, single]
  have rooted : (pathJoin p name).head? = some '/' := by
    have real : p ≠ [] := by
      rintro rfl
      cases isPath.absolute
    rw [pathJoin, if_neg relative]
    split
    · rw [List.head?_append_of_ne_nil _ real, isPath.absolute]
    · rw [List.head?_append_of_ne_nil _ real, isPath.absolute]
  have isNames : ∀ part ∈ namesOf p ++ [name], IsPathName part := by
    intro part mem
    rcases List.mem_append.mp mem with old | new
    · exact namesOf_isName p part old
    · rw [List.mem_singleton.mp new]
      exact isName
  refine ⟨?_, ?_⟩
  · rw [← initialSlashes_normpath rooted, normal,
      initialSlashes_absText isPath.slashes isNames, below.1]
  · rw [← namesOf_normpath rooted, normal, namesOf_absText isNames]
    exact below.2.trans (List.prefix_append _ _)

theorem safePath_isRoot (isRoot : IsRoot root) {name path : Text}
    (some_ : safePath cwd root name = some path) : IsRoot path := by
  obtain ⟨rfl, -⟩ := safePath_some isRoot some_
  exact ⟨head_absText isRoot.slashes,
    normpath_absText isRoot.slashes (lexical_isName root name)⟩

theorem asks_listEntries {p : Text} (isPath : IsRoot p) (below : Below root p)
    {entries : List Text} (isNames : ∀ name ∈ entries, IsPathName name) (buf : List Byte) :
    Asks (Inside root) (listEntries os p entries buf) := by
  induction entries generalizing buf with
  | nil => exact asks_pure buf
  | cons name entries ih =>
      rw [List.forall_mem_cons] at isNames
      refine asks_bind (asks_ask (inside_one rfl (below_entry isPath below isNames.1)))
        fun isDir => ?_
      dsimp only
      split
      · exact asks_pure _
      · exact ih isNames.2 _

theorem asks_serveRrq (isRoot : IsRoot root) (filename mode : Text) :
    Asks (Inside root) (serveRrq os cwd root filename mode) := by
  unfold serveRrq
  split
  · exact asks_pure _
  · split
    · exact asks_pure _
    · rename_i path some_
      have below := safePath_below isRoot some_
      refine asks_bind (asks_ask (inside_one rfl below)) fun isFile => ?_
      split
      · exact asks_pure _
      · refine asks_bind (asks_run (inside_one rfl below)) fun opened => ?_
        cases opened with
        | error e => exact asks_pure _
        | ok _ =>
            refine asks_bind (asks_run (inside_one rfl below)) fun size => ?_
            cases size <;> exact asks_pure _

theorem asks_fsHandleList (isRoot : IsRoot root) (path : Text) :
    Asks (Inside root) (fsHandleList os cwd root path) := by
  unfold fsHandleList
  split
  · exact asks_pure _
  · rename_i p chosen
    have whole : IsRoot p ∧ Below root p := by
      split at chosen
      · exact ⟨safePath_isRoot isRoot chosen, safePath_below isRoot chosen⟩
      · have same : abspath cwd root = root := by
          rw [abspath, if_pos isRoot.absolute, isRoot.normal]
        rw [same] at chosen
        obtain rfl := Option.some.inj chosen
        exact ⟨isRoot, below_self root⟩
    refine asks_bind (asks_ask (inside_one rfl whole.2)) fun isDir => ?_
    split
    · exact asks_pure _
    · refine asks_listdir_bind (inside_one rfl whole.2) (fun e => asks_pure _)
        fun entries isNames => ?_
      refine asks_bind (asks_listEntries whole.1 whole.2 ?_ _) fun buf => asks_pure _
      exact fun name mem => isNames name (List.mem_mergeSort.mp mem)

theorem asks_fsHandleDelete (isRoot : IsRoot root) (path : Text) :
    Asks (Inside root) (fsHandleDelete os cwd root readonly path) := by
  unfold fsHandleDelete
  split
  · exact asks_pure _
  · split
    · exact asks_pure _
    · rename_i p some_
      have below := safePath_below isRoot some_
      refine asks_bind (asks_ask (inside_one rfl below)) fun there => ?_
      split
      · exact asks_pure _
      · refine asks_bind (asks_ask (inside_one rfl below)) fun isDir => ?_
        have removal : Inside root (if isDir = true then .rmdir p else .remove p) := by
          split <;> exact inside_one rfl below
        refine asks_bind (asks_run removal) fun removed => ?_
        cases removed <;> exact asks_pure _

theorem asks_fsHandleRename (isRoot : IsRoot root) (old new : Text) :
    Asks (Inside root) (fsHandleRename os cwd root readonly old new) := by
  unfold fsHandleRename
  split
  · exact asks_pure _
  · split
    · rename_i po pn someOld someNew
      have belowOld := safePath_below isRoot someOld
      have belowNew := safePath_below isRoot someNew
      refine asks_bind (asks_ask (inside_one rfl belowOld)) fun there => ?_
      split
      · exact asks_pure _
      · refine asks_bind (asks_ask (inside_one rfl belowNew)) fun taken => ?_
        split
        · exact asks_pure _
        · have both : Inside root (.rename po pn) := by
            intro path mem
            rcases List.mem_pair.mp mem with rfl | rfl
            · exact belowOld
            · exact belowNew
          refine asks_bind (asks_run both) fun renamed => ?_
          cases renamed <;> exact asks_pure _
    · exact asks_pure _

theorem asks_fsHandleMkdir (isRoot : IsRoot root) (path : Text) :
    Asks (Inside root) (fsHandleMkdir os cwd root readonly path) := by
  unfold fsHandleMkdir
  split
  · exact asks_pure _
  · split
    · exact asks_pure _
    · rename_i p some_
      have below := safePath_below isRoot some_
      refine asks_bind (asks_ask (inside_one rfl below)) fun there => ?_
      split
      · exact asks_pure _
      · refine asks_bind (asks_run (inside_one rfl below)) fun made => ?_
        cases made <;> exact asks_pure _

/-- A write request makes the directory above its path. -/
theorem asks_serveWrq (isRoot : IsRoot root) {filename mode : Text} {P : Call → Prop}
    (inside : ∀ call, Inside root call → P call)
    (made : ∀ path, safePath cwd root filename = some path → readonly = false →
      knownMode mode = true → P (.makedirs (dirname path))) :
    Asks P (serveWrq os cwd root readonly filename mode) := by
  unfold serveWrq
  split
  · exact asks_pure _
  · rename_i writable
    split
    · exact asks_pure _
    · rename_i mode_
      split
      · exact asks_pure _
      · rename_i path some_
        have makes := made path some_ (by simpa using writable) (by simpa using mode_)
        have opens : P (.openWrite path) :=
          inside _ (inside_one rfl (safePath_below isRoot some_))
        refine asks_bind (asks_run makes) fun dirs => ?_
        cases dirs with
        | error e => exact asks_pure _
        | ok _ =>
            refine asks_bind (asks_run opens) fun opened => ?_
            cases opened <;> exact asks_pure _

/-- A write request that is served has asked for the directory above its path. -/
theorem serveWrq_makes {filename mode path : Text} (writable : readonly = false)
    (mode_ : knownMode mode = true) (some_ : safePath cwd root filename = some path) :
    .makedirs (dirname path) ∈ (serveWrq os cwd root readonly filename mode []).2 := by
  subst writable
  rw [serveWrq, if_neg (by decide), if_neg (by simpa using mode_), some_]
  simp only [bind, StateT.bind, Os.run, pure, List.nil_append]
  cases os.act [] (.makedirs (dirname path)) with
  | error e => exact List.mem_singleton_self _
  | ok _ =>
      simp only [StateT.bind, Os.run]
      cases os.act [.makedirs (dirname path)] (.openWrite path) <;> exact List.mem_cons_self

/-- A write request has the directory above the root made when its name is the root. -/
def MakesAbove (root : Text) (readonly : Bool) : Request → Prop
  | .wrq filename mode =>
      readonly = false ∧ knownMode mode = true ∧ root ≠ ['/', '/'] ∧
        lexical root filename = namesOf root
  | _ => False

theorem below_dirname_iff (isRoot : IsRoot root) (notSlash : root ≠ ['/']) {name path : Text}
    (some_ : safePath cwd root name = some path) :
    Below root (dirname path) ↔ root = ['/', '/'] ∨ lexical root name ≠ namesOf root := by
  obtain ⟨rfl, below⟩ := safePath_some isRoot some_
  have isNames := lexical_isName root name
  obtain ⟨before, slashes⟩ : ∃ before, initialSlashes root = before + 1 :=
    ⟨initialSlashes root - 1, by have := isRoot.slashes; omega⟩
  rw [slashes, dirname_absText isNames, ← slashes, below_absText_iff isRoot fun part mem =>
    isNames part (List.mem_of_mem_dropLast mem)]
  constructor
  · intro inside
    by_cases same : lexical root name = namesOf root
    · left
      rw [same] at inside
      have short := inside.length_le
      rw [List.length_dropLast] at short
      have none : namesOf root = [] := List.length_eq_zero_iff.mp (by omega)
      exact (isRoot.namesOf_eq_nil_iff.mp none).resolve_left notSlash
    · exact .inr same
  · rintro (root_ | differ)
    · rw [isRoot.namesOf_eq_nil_iff.mpr (.inr root_)]
      exact List.nil_prefix
    · rcases List.eq_nil_or_concat' (lexical root name) with none | ⟨init, last, concat⟩
      · rw [none] at below differ
        exact absurd (List.prefix_nil.mp below).symm differ
      · rw [concat] at below differ ⊢
        rw [List.dropLast_concat]
        exact (List.prefix_concat_iff.mp below).resolve_left fun same => differ same.symm

/-- All calls of a request have a property that those inside the root have, and the directory
above a path where it is made. -/
theorem asks_handle (isRoot : IsRoot root) (notSlash : root ≠ ['/']) {request : Request}
    {P : Call → Prop} (inside : ∀ call, Inside root call → P call)
    (made : MakesAbove root readonly request → ∀ path, P (.makedirs path)) :
    Asks P (handle os cwd root readonly request) := by
  cases request with
  | rrq filename mode => exact (asks_serveRrq isRoot filename mode).mono inside
  | list path => exact (asks_fsHandleList isRoot path).mono inside
  | delete path => exact (asks_fsHandleDelete isRoot path).mono inside
  | rename old new => exact (asks_fsHandleRename isRoot old new).mono inside
  | mkdir path => exact (asks_fsHandleMkdir isRoot path).mono inside
  | wrq filename mode =>
      refine asks_serveWrq isRoot inside fun path some_ writable known => ?_
      by_cases below : Below root (dirname path)
      · exact inside _ (inside_one rfl below)
      · rw [below_dirname_iff isRoot notSlash some_, not_or, not_not] at below
        exact made ⟨writable, known, below⟩ _

end Inside

section Confinement

variable {root : Text}

theorem safePath_eq_confined_iff (isRoot : IsRoot root) (notSlash : root ≠ ['/'])
    (cwd name : Text) :
    safePath cwd root name = confined root name ↔
      root ≠ ['/', '/'] ∨ lexical root name = [] := by
  have none_iff : namesOf root = [] ↔ root = ['/', '/'] := by
    rw [isRoot.namesOf_eq_nil_iff]
    exact or_iff_right notSlash
  rw [safePath_eq isRoot, confined]
  by_cases none : namesOf root = []
  · rw [none, if_pos List.nil_prefix]
    have root_ := none_iff.mp none
    by_cases same : lexical root name = []
    · rw [if_pos (.inl same)]
      exact iff_of_true rfl (.inr same)
    · rw [if_neg (by simp [same])]
      exact iff_of_false (by simp) (not_or.mpr ⟨not_not_intro root_, same⟩)
  · refine iff_of_true (if_congr ⟨?_, fun below => .inr ⟨none, below⟩⟩ rfl rfl)
      (.inl (mt none_iff.mpr none))
    rintro (same | below)
    · rw [same]
    · exact below.2

/-- `safe_path` answers by components unless the root ends in a slash, and all calls of the
handlers stay at or below the root but for the directory above a root that is written to. -/
theorem safe_path_confines (cwd : Text) (root : Text) (isRoot : IsRoot root)
    (notSlash : root ≠ ['/']) :
    (∀ name, safePath cwd root name = confined root name ↔
      root ≠ ['/', '/'] ∨ lexical root name = []) ∧
    (∀ os readonly request, ∀ call ∈ (handle os cwd root readonly request []).2,
      (∀ path, call ≠ .makedirs path) → Inside root call) ∧
    ∀ os readonly request, (∀ call ∈ (handle os cwd root readonly request []).2, Inside root call) ↔
      ¬ MakesAbove root readonly request := by
  refine ⟨safePath_eq_confined_iff isRoot notSlash cwd, ?_, ?_⟩
  · intro os readonly request call mem other
    have asks : Asks (fun call => (∀ path, call ≠ .makedirs path) → Inside root call)
        (handle os cwd root readonly request) :=
      asks_handle isRoot notSlash (fun call inside _ => inside)
        fun _ path other => absurd rfl (other path)
    obtain ⟨made, log, all⟩ := asks []
    rw [log] at mem
    exact all call mem other
  · intro os readonly request
    constructor
    · intro inside makes
      cases request with
      | wrq filename mode =>
          obtain ⟨writable, known, notSlashes, same⟩ := makes
          have some_ : safePath cwd root filename =
              some (absText (initialSlashes root) (lexical root filename)) := by
            rw [safePath_eq isRoot, if_pos (.inl same)]
          have below := inside _ (serveWrq_makes writable known some_) _ (List.mem_singleton_self _)
          rw [below_dirname_iff isRoot notSlash some_] at below
          exact below.elim notSlashes fun differ => differ same
      | rrq filename mode => exact makes
      | list path => exact makes
      | delete path => exact makes
      | rename old new => exact makes
      | mkdir path => exact makes
    · intro stays
      have asks : Asks (Inside root) (handle os cwd root readonly request) :=
        asks_handle isRoot notSlash (fun _ inside => inside) fun makes => absurd makes stays
      obtain ⟨made, log, all⟩ := asks []
      rw [log]
      exact all

/-- Names that leave the root, one of them for a directory whose name begins like the root's,
and one that leaves it and comes back. -/
theorem safe_path_confines_srv :
    safePath ['/'] "/srv".toList "..\\srv2/x".toList = none ∧
      safePath ['/'] "/srv".toList "/a/../..\\srv/./b".toList = some "/srv/b".toList := by
  have isRoot : IsRoot "/srv".toList := ⟨by decide, by decide⟩
  have answers := (safe_path_confines ['/'] "/srv".toList isRoot (by decide)).1
  exact ⟨((answers "..\\srv2/x".toList).mpr (.inl (by decide))).trans (by decide),
    ((answers "/a/../..\\srv/./b".toList).mpr (.inl (by decide))).trans (by decide)⟩

/-- An operating system without files. -/
def emptyOs : Os where
  test := fun _ _ => false
  act := fun _ _ => .ok ()
  list := fun _ _ => .ok []
  list_isName := by
    intro calls path entries listed
    cases listed
    exact nofun

/-- The root `//` is absolute and normalised, and every file below it is refused.  A write
request for the root itself asks for the directory above it. -/
theorem safe_path_refuses_below_slashes :
    IsRoot ['/', '/'] ∧ safePath ['/'] ['/', '/'] ['a'] = none ∧
      confined ['/', '/'] ['a'] = some ['/', '/', 'a'] ∧
      IsRoot "/srv".toList ∧
      Call.makedirs ['/'] ∈
        (handle emptyOs ['/'] "/srv".toList false (.wrq [] "octet".toList) []).2 ∧
      ¬ Inside "/srv".toList (.makedirs ['/']) :=
  ⟨⟨by decide, by decide⟩, by decide, by decide, ⟨by decide, by decide⟩, by decide, by decide⟩

end Confinement

end Ncd15.Tftp.Fs
