import Mathlib.Data.List.Basic
import Mathlib.Data.List.Infix

/-!
# Paths of POSIX

The functions of `posixpath` on the texts of paths, and what they mean for the components.
An absolute path is its leading slashes and its names; a path is normalised by pushing its
components one after the other, and one text with a slash behind it is a prefix of another
exactly when its names are the first of the other's.
-/

namespace Ncd15.Library

section Functions

abbrev Text := List Char

/-- `os.path.join` of two paths. -/
def pathJoin (a b : Text) : Text :=
  if b.head? = some '/' then b
  else if a = [] ∨ a.getLast? = some '/' then a ++ b
  else a ++ '/' :: b

/-- Leading slashes that `normpath` keeps: two of them stay two, and more become one. -/
def initialSlashes : Text → Nat
  | '/' :: '/' :: '/' :: _ => 1
  | '/' :: '/' :: _ => 2
  | '/' :: _ => 1
  | _ => 0

/-- One round of the loop of `normpath`. -/
def pushComp (rooted : Bool) (comps : List Text) (comp : Text) : List Text :=
  if comp = [] ∨ comp = ['.'] then comps
  else if comp ≠ ['.', '.'] ∨ (¬ rooted ∧ comps = []) ∨ comps.getLast? = some ['.', '.'] then
    comps ++ [comp]
  else comps.dropLast

/-- `os.path.normpath`. -/
def normpath (path : Text) : Text :=
  if path = [] then ['.']
  else
    let slashes := initialSlashes path
    let comps := (path.splitOn '/').foldl (pushComp (slashes ≠ 0)) []
    let text := List.replicate slashes '/' ++ ['/'].intercalate comps
    if text = [] then ['.'] else text

/-- `os.path.abspath` in a working directory. -/
def abspath (cwd path : Text) : Text :=
  if path.head? = some '/' then normpath path else normpath (pathJoin cwd path)

/-- `os.path.dirname`. -/
def dirname (path : Text) : Text :=
  let head := (path.reverse.dropWhile (· ≠ '/')).reverse
  if head.all (· = '/') then head else (head.reverse.dropWhile (· = '/')).reverse

/-- `os.path.basename`. -/
def basename (path : Text) : Text := (path.reverse.takeWhile (· ≠ '/')).reverse

end Functions

section Names

/-- What can name an entry of a directory. -/
structure IsPathName (name : Text) : Prop where
  nonempty : name ≠ []
  slash : '/' ∉ name
  dot : name ≠ ['.']
  dots : name ≠ ['.', '.']

/-- One component, taken in a directory. -/
def enter (names : List Text) (comp : Text) : List Text :=
  if comp = [] ∨ comp = ['.'] then names
  else if comp = ['.', '.'] then names.dropLast
  else names ++ [comp]

/-- The directory or file that components lead to. -/
def resolve (names comps : List Text) : List Text := comps.foldl enter names

/-- The names on the way to an absolute path. -/
def namesOf (path : Text) : List Text := resolve [] (path.splitOn '/')

/-- Every name with a slash in front. -/
def slashed (names : List Text) : Text := names.flatMap fun name => '/' :: name

/-- The text of an absolute path. -/
def absText (slashes : Nat) (names : List Text) : Text :=
  List.replicate slashes '/' ++ ['/'].intercalate names

variable {names comps : List Text} {comp : Text}

theorem resolve_append (names first second : List Text) :
    resolve names (first ++ second) = resolve (resolve names first) second :=
  List.foldl_append

theorem enter_name (names : List Text) {name : Text} (isName : IsPathName name) :
    enter names name = names ++ [name] := by
  rw [enter, if_neg (by simp [isName.nonempty, isName.dot]), if_neg isName.dots]

/-- Names lead into their directory. -/
theorem resolve_names (first : List Text) (isNames : ∀ name ∈ names, IsPathName name) :
    resolve first names = first ++ names := by
  induction names generalizing first with
  | nil => rw [List.append_nil]; rfl
  | cons name names ih =>
      rw [List.forall_mem_cons] at isNames
      change resolve (enter first name) names = _
      rw [ih _ isNames.2, enter_name first isNames.1, List.append_assoc]
      rfl

theorem enter_isName (isNames : ∀ name ∈ names, IsPathName name) (noSlash : '/' ∉ comp) :
    ∀ name ∈ enter names comp, IsPathName name := by
  unfold enter
  split
  · exact isNames
  · rename_i real
    split
    · exact fun name mem => isNames name (List.mem_of_mem_dropLast mem)
    · rename_i notUp
      intro name mem
      rcases List.mem_append.mp mem with old | new
      · exact isNames name old
      · rw [List.mem_singleton.mp new]
        exact ⟨fun same => real (.inl same), noSlash, fun same => real (.inr same), notUp⟩

theorem resolve_isName (isNames : ∀ name ∈ names, IsPathName name)
    (noSlash : ∀ comp ∈ comps, '/' ∉ comp) : ∀ name ∈ resolve names comps, IsPathName name := by
  induction comps generalizing names with
  | nil => exact isNames
  | cons comp comps ih =>
      rw [List.forall_mem_cons] at noSlash
      exact ih (enter_isName isNames noSlash.1) noSlash.2

/-- In a rooted path no component is left that leads up. -/
theorem pushComp_rooted (isNames : ∀ name ∈ names, IsPathName name) (comp : Text) :
    pushComp true names comp = enter names comp := by
  have up : names.getLast? ≠ some ['.', '.'] := fun last =>
    (isNames _ (List.mem_of_getLast? last)).dots rfl
  rw [pushComp, enter]
  by_cases skip : comp = [] ∨ comp = ['.']
  · rw [if_pos skip, if_pos skip]
  · rw [if_neg skip, if_neg skip]
    by_cases dots : comp = ['.', '.']
    · rw [if_pos dots, if_neg (by simp [dots, up])]
    · rw [if_neg dots, if_pos (.inl dots)]

theorem foldl_pushComp (isNames : ∀ name ∈ names, IsPathName name)
    (noSlash : ∀ comp ∈ comps, '/' ∉ comp) :
    comps.foldl (pushComp true) names = resolve names comps := by
  induction comps generalizing names with
  | nil => rfl
  | cons comp comps ih =>
      rw [List.forall_mem_cons] at noSlash
      rw [List.foldl_cons, pushComp_rooted isNames, ih (enter_isName isNames noSlash.1) noSlash.2]
      rfl

end Names

section Texts

variable {names : List Text} {slashes : Nat} {path t : Text}

theorem slash_not_mem_of_mem_splitOn {comp : Text} (mem : comp ∈ path.splitOn '/') :
    '/' ∉ comp := by
  induction path generalizing comp with
  | nil =>
      rw [List.mem_singleton.mp mem]
      exact List.not_mem_nil
  | cons c path ih =>
      rw [List.splitOn_cons_eq_if_modifyHead] at mem
      by_cases slash : c = '/'
      · rw [if_pos (beq_iff_eq.mpr slash)] at mem
        rcases List.mem_cons.mp mem with rfl | later
        · exact List.not_mem_nil
        · exact ih later
      · rw [if_neg (by simpa using slash)] at mem
        obtain ⟨first, rest, split⟩ := List.exists_cons_of_ne_nil (List.splitOn_ne_nil '/' path)
        rw [split, List.modifyHead_cons] at mem
        rcases List.mem_cons.mp mem with rfl | later
        · rw [List.mem_cons, not_or]
          exact ⟨fun same => slash same.symm, ih (by rw [split]; exact List.mem_cons_self)⟩
        · exact ih (by rw [split]; exact List.mem_cons_of_mem _ later)

theorem namesOf_isName (path : Text) : ∀ name ∈ namesOf path, IsPathName name :=
  resolve_isName (by simp) fun _ mem => slash_not_mem_of_mem_splitOn mem

/-- The slashes in front of a text that has none of its own. -/
theorem initialSlashes_replicate (some_ : slashes = 1 ∨ slashes = 2)
    (none : t.head? ≠ some '/') : initialSlashes (List.replicate slashes '/' ++ t) = slashes := by
  rcases some_ with rfl | rfl
  all_goals
    cases t with
    | nil => rfl
    | cons c t =>
        have other : c ≠ '/' := fun same => none (by rw [same]; rfl)
        simp [List.replicate, initialSlashes, other]

theorem initialSlashes_rooted (rooted : path.head? = some '/') :
    initialSlashes path = 1 ∨ initialSlashes path = 2 := by
  cases path with
  | nil => cases rooted
  | cons c path =>
      obtain rfl := Option.some.inj rooted
      unfold initialSlashes
      split
      · exact .inl rfl
      · exact .inr rfl
      · exact .inl rfl
      · rename_i other
        exact (other path rfl).elim

/-- What `normpath` makes of a rooted path. -/
theorem normpath_rooted (rooted : path.head? = some '/') :
    normpath path = absText (initialSlashes path) (namesOf path) := by
  have real : path ≠ [] := by
    rintro rfl
    cases rooted
  have slashes := initialSlashes_rooted rooted
  have comps : (path.splitOn '/').foldl (pushComp true) [] = resolve [] (path.splitOn '/') :=
    foldl_pushComp (by simp) fun comp mem => slash_not_mem_of_mem_splitOn mem
  have rooted_ : decide (initialSlashes path ≠ 0) = true := by
    rw [decide_eq_true_iff]
    omega
  have text : List.replicate (initialSlashes path) '/' ++
      ['/'].intercalate (resolve [] (path.splitOn '/')) ≠ [] := by
    rcases slashes with one | two
    · rw [one]
      exact List.cons_ne_nil _ _
    · rw [two]
      exact List.cons_ne_nil _ _
  rw [normpath, if_neg real]
  dsimp only
  rw [rooted_, comps, if_neg text]
  rfl

theorem resolve_replicate_nil (first : List Text) (count : Nat) :
    resolve first (List.replicate count []) = first := by
  induction count with
  | zero => rfl
  | succ count ih => exact ih

theorem splitOn_replicate (count : Nat) (t : Text) :
    (List.replicate count '/' ++ t).splitOn '/' = List.replicate count [] ++ t.splitOn '/' := by
  induction count with
  | zero => rfl
  | succ count ih =>
      rw [List.replicate_succ, List.cons_append, List.splitOn_cons_eq_if_modifyHead,
        if_pos (beq_self_eq_true '/'), ih]
      rfl

theorem resolve_intercalate (first : List Text) (isNames : ∀ name ∈ names, IsPathName name) :
    resolve first ((['/'].intercalate names).splitOn '/') = first ++ names := by
  cases names with
  | nil => exact (List.append_nil first).symm
  | cons name rest =>
      rw [List.splitOn_intercalate '/' (fun name mem => (isNames name mem).slash)
        (List.cons_ne_nil _ _), resolve_names first isNames]

theorem resolve_absText (first : List Text) (isNames : ∀ name ∈ names, IsPathName name) :
    resolve first ((absText slashes names).splitOn '/') = first ++ names := by
  rw [absText, splitOn_replicate, resolve_append, resolve_replicate_nil,
    resolve_intercalate first isNames]

theorem namesOf_absText (isNames : ∀ name ∈ names, IsPathName name) :
    namesOf (absText slashes names) = names :=
  (resolve_absText [] isNames).trans (List.nil_append names)

theorem head_intercalate (isNames : ∀ name ∈ names, IsPathName name) :
    (['/'].intercalate names).head? ≠ some '/' := by
  cases names with
  | nil => exact nofun
  | cons name rest =>
      have isName := isNames name List.mem_cons_self
      cases name with
      | nil => exact absurd rfl isName.nonempty
      | cons c name =>
          rw [List.intercalate_cons_cons_left, List.head?_cons]
          exact fun same => isName.slash (by rw [Option.some.inj same]; exact List.mem_cons_self)

theorem initialSlashes_absText (some_ : slashes = 1 ∨ slashes = 2)
    (isNames : ∀ name ∈ names, IsPathName name) :
    initialSlashes (absText slashes names) = slashes :=
  initialSlashes_replicate some_ (head_intercalate isNames)

theorem head_absText (some_ : slashes = 1 ∨ slashes = 2) :
    (absText slashes names).head? = some '/' := by
  rcases some_ with rfl | rfl <;> rfl

/-- A path of names is normalised. -/
theorem normpath_absText (some_ : slashes = 1 ∨ slashes = 2)
    (isNames : ∀ name ∈ names, IsPathName name) :
    normpath (absText slashes names) = absText slashes names := by
  rw [normpath_rooted (head_absText some_), initialSlashes_absText some_ isNames,
    namesOf_absText isNames]

/-- Normalising changes neither the slashes nor the names. -/
theorem initialSlashes_normpath (rooted : path.head? = some '/') :
    initialSlashes (normpath path) = initialSlashes path := by
  rw [normpath_rooted rooted,
    initialSlashes_absText (initialSlashes_rooted rooted) (namesOf_isName path)]

theorem namesOf_normpath (rooted : path.head? = some '/') :
    namesOf (normpath path) = namesOf path := by
  rw [normpath_rooted rooted, namesOf_absText (namesOf_isName path)]

theorem cons_intercalate (some_ : names ≠ []) : '/' :: ['/'].intercalate names = slashed names := by
  induction names with
  | nil => exact absurd rfl some_
  | cons name rest ih =>
      cases rest with
      | nil => simp [slashed]
      | cons next rest =>
          rw [List.intercalate_cons_cons, List.append_assoc, slashed, List.flatMap_cons]
          exact congrArg _ (congrArg _ (ih (List.cons_ne_nil _ _)))

theorem absText_succ (some_ : names ≠ []) :
    absText (slashes + 1) names = List.replicate slashes '/' ++ slashed names := by
  rw [absText, List.replicate_succ', List.append_assoc, List.singleton_append,
    cons_intercalate some_]

theorem intercalate_ne_nil (some_ : names ≠ []) (isNames : ∀ name ∈ names, IsPathName name) :
    ['/'].intercalate names ≠ [] := by
  cases names with
  | nil => exact absurd rfl some_
  | cons name rest =>
      obtain ⟨c, name, rfl⟩ :=
        List.exists_cons_of_ne_nil (isNames name List.mem_cons_self).nonempty
      rw [List.intercalate_cons_cons_left]
      exact List.cons_ne_nil _ _

/-- A path of names does not end in a slash, unless it has none. -/
theorem getLast_absText (some_ : names ≠ []) (isNames : ∀ name ∈ names, IsPathName name) :
    (absText (slashes + 1) names).getLast? ≠ some '/' := by
  obtain ⟨init, last, rfl⟩ := (List.eq_nil_or_concat' names).resolve_left some_
  have isName := isNames last (by simp)
  have text : absText (slashes + 1) (init ++ [last]) =
      (List.replicate slashes '/' ++ slashed init ++ ['/']) ++ last := by
    rw [absText_succ some_, slashed, List.flatMap_append]
    simp [slashed]
  rw [text, List.getLast?_append_of_ne_nil _ isName.nonempty]
  exact fun same => isName.slash (List.mem_of_getLast? same)

/-- The part of a path before its last name, with the slash that ends it. -/
theorem absText_concat (init : List Text) (last : Text) :
    absText (slashes + 1) (init ++ [last]) =
      (if init = [] then absText (slashes + 1) [] else absText (slashes + 1) init ++ ['/']) ++
        last := by
  by_cases none : init = []
  · rw [if_pos none, none]
    simp [absText]
  · rw [if_neg none, absText_succ (by simp), absText_succ none, slashed, slashed,
      List.flatMap_append]
    simp

theorem reverse_dropWhile_append {p : Char → Bool} (a : Text) {b : Text}
    (all : ∀ c ∈ b, p c = true) :
    ((a ++ b).reverse.dropWhile p).reverse = (a.reverse.dropWhile p).reverse := by
  rw [List.reverse_append, List.dropWhile_append_of_pos]
  exact fun c mem => all c (List.mem_reverse.mp mem)

theorem reverse_dropWhile_of_getLast {p : Char → Bool} {a : Text}
    (last : ∀ c, a.getLast? = some c → p c = false) : (a.reverse.dropWhile p).reverse = a := by
  rcases List.eq_nil_or_concat' a with rfl | ⟨init, c, rfl⟩
  · rfl
  · have stop : p c = false := last c (by simp)
    simp [stop]

/-- `os.path.dirname` of a path of names takes the last name away. -/
theorem dirname_absText (isNames : ∀ name ∈ names, IsPathName name) :
    dirname (absText (slashes + 1) names) = absText (slashes + 1) names.dropLast := by
  have bare : absText (slashes + 1) [] = List.replicate (slashes + 1) '/' := by
    rw [absText, List.intercalate_nil, List.append_nil]
  have allSlashes : (absText (slashes + 1) []).all (· = '/') = true := by
    rw [bare, List.all_eq_true]
    exact fun c mem => decide_eq_true (List.eq_of_mem_replicate mem)
  have endsBare (c : Char) (last : (absText (slashes + 1) []).getLast? = some c) :
      decide (c ≠ '/') = false := by
    rw [bare] at last
    simpa using List.eq_of_mem_replicate (List.mem_of_getLast? last)
  rcases List.eq_nil_or_concat' names with rfl | ⟨init, last, rfl⟩
  · rw [dirname, reverse_dropWhile_of_getLast endsBare, if_pos allSlashes]
    rfl
  · have noSlash : ∀ c ∈ last, decide (c ≠ '/') = true := fun c mem =>
      decide_eq_true fun same => (isNames last (by simp)).slash (same ▸ mem)
    rw [dirname, absText_concat, reverse_dropWhile_append _ noSlash, List.dropLast_concat]
    by_cases none : init = []
    · rw [if_pos none, reverse_dropWhile_of_getLast endsBare, if_pos allSlashes, none]
    · have isInit : ∀ name ∈ init, IsPathName name := fun name mem => isNames name (by simp [mem])
      have real : (absText (slashes + 1) init).getLast? ≠ some '/' := getLast_absText none isInit
      have notAll : ¬ (absText (slashes + 1) init ++ ['/']).all (· = '/') = true := by
        intro all
        rw [List.all_append, Bool.and_eq_true] at all
        have some_ : absText (slashes + 1) init ≠ [] := by simp [absText, List.replicate_succ]
        obtain ⟨c, last⟩ := Option.ne_none_iff_exists'.mp
          (mt List.getLast?_eq_none_iff.mp some_)
        have slash := List.all_eq_true.mp all.1 c (List.mem_of_getLast? last)
        exact real (by rw [last, of_decide_eq_true slash])
      rw [if_neg none, reverse_dropWhile_of_getLast (by simp), if_neg notAll,
        reverse_dropWhile_append _ (by simp), reverse_dropWhile_of_getLast]
      exact fun c last => decide_eq_false fun same => real (same ▸ last)

/-- A relative path, joined to a path of names and normalised. -/
theorem normpath_join (some_ : slashes = 1 ∨ slashes = 2)
    (isNames : ∀ name ∈ names, IsPathName name) (relative : t.head? ≠ some '/') :
    normpath (pathJoin (absText slashes names) t) =
      absText slashes (resolve names (t.splitOn '/')) := by
  have rooted : (absText slashes names).head? = some '/' := head_absText some_
  have real : absText slashes names ≠ [] := fun none => by
    rw [none] at rooted
    cases rooted
  rw [pathJoin, if_neg relative]
  by_cases root : names = []
  · subst root
    have bare : absText slashes [] = List.replicate slashes '/' := by
      rw [absText, List.intercalate_nil, List.append_nil]
    have last : (absText slashes []).getLast? = some '/' := by
      rcases some_ with rfl | rfl <;> rfl
    rw [if_pos (.inr last), normpath_rooted, namesOf, bare, initialSlashes_replicate some_ relative,
      splitOn_replicate, resolve_append, resolve_replicate_nil]
    rcases some_ with rfl | rfl <;> rfl
  · have last : (absText slashes names).getLast? ≠ some '/' := by
      obtain ⟨before, rfl⟩ : ∃ before, slashes = before + 1 := ⟨slashes - 1, by omega⟩
      exact getLast_absText root isNames
    rw [if_neg (by simp [real, last]), normpath_rooted, namesOf, List.splitOn_append_cons_self,
      resolve_append, resolve_absText [] isNames, List.nil_append]
    · congr 1
      rw [absText, List.append_assoc]
      refine initialSlashes_replicate some_ ?_
      rw [List.head?_append_of_ne_nil _ (intercalate_ne_nil root isNames)]
      exact head_intercalate isNames
    · rw [List.head?_append_of_ne_nil _ real]
      exact rooted

end Texts

section Prefixes

variable {names names' : List Text} {name name' x y : Text}

/-- Two texts with a first name in front agree in the name when one is a prefix of the other. -/
theorem name_prefix_iff (slash : '/' ∉ name) (slash' : '/' ∉ name')
    (ends : y = [] ∨ y.head? = some '/') :
    name ++ '/' :: x <+: name' ++ y ↔ name = name' ∧ '/' :: x <+: y := by
  induction name generalizing name' with
  | nil =>
      cases name' with
      | nil => simp
      | cons c name' =>
          rw [List.mem_cons, not_or] at slash'
          simp [slash'.1]
  | cons c name ih =>
      rw [List.mem_cons, not_or] at slash
      cases name' with
      | nil =>
          rcases ends with rfl | head
          · simp
          · obtain ⟨y, rfl⟩ : ∃ rest, y = '/' :: rest := by
              cases y with
              | nil => cases head
              | cons c y => exact ⟨y, by rw [Option.some.inj head]⟩
            simp [Ne.symm slash.1]
      | cons c' name' =>
          rw [List.mem_cons, not_or] at slash'
          rw [List.cons_append, List.cons_append, List.cons_prefix_cons, ih slash.2 slash'.2,
            List.cons.injEq, and_assoc]

theorem slashed_ends (names : List Text) :
    slashed names = [] ∨ (slashed names).head? = some '/' := by
  cases names with
  | nil => exact .inl rfl
  | cons name names => exact .inr rfl

/-- The test for a path below another is right component by component. -/
theorem slashed_prefix_iff (noSlash : ∀ name ∈ names, '/' ∉ name)
    (noSlash' : ∀ name ∈ names', '/' ∉ name) :
    slashed names ++ ['/'] <+: slashed names' ↔ names <+: names' ∧ names ≠ names' := by
  induction names generalizing names' with
  | nil =>
      cases names' with
      | nil => simp [slashed]
      | cons name' names' => simp [slashed]
  | cons name names ih =>
      cases names' with
      | nil => simp [slashed]
      | cons name' names' =>
          rw [List.forall_mem_cons] at noSlash noSlash'
          obtain ⟨x, front⟩ : ∃ x, slashed names ++ ['/'] = '/' :: x := by
            cases names with
            | nil => exact ⟨[], rfl⟩
            | cons name names => exact ⟨_, rfl⟩
          have step := name_prefix_iff (x := x) noSlash.1 noSlash'.1 (slashed_ends names')
          rw [← front, ih noSlash.2 noSlash'.2] at step
          change '/' :: name ++ slashed names ++ ['/'] <+: '/' :: name' ++ slashed names' ↔ _
          rw [List.cons_append, List.cons_append, List.cons_append, List.cons_prefix_cons,
            List.append_assoc, step, List.cons_prefix_cons]
          simp only [ne_eq, List.cons.injEq, true_and]
          constructor
          · rintro ⟨same, prefix_, differ⟩
            exact ⟨⟨same, prefix_⟩, fun both => differ both.2⟩
          · rintro ⟨⟨same, prefix_⟩, differ⟩
            exact ⟨same, prefix_, fun rest => differ ⟨same, rest⟩⟩

end Prefixes

end Ncd15.Library
