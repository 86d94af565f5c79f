import Ncd15.Bdos.CurrentDirectory
import Ncd15.Fat.RootDirectory

/-!
# The codecs of 8.3 names

A name travels as eight and three characters with blanks behind them, and as text with a dot.
`fcb_to_name` and the raw side of `name_match_83` read the first form, `build_raw_name` and
the packing of the command processor write it.  Both directions are those of a pair of parts;
text that goes through a C string stops at the first NUL of the parts.
-/

namespace Ncd15.Bdos

open Ncd15.Fat Ncd15.Library

section Packing

/-- A loop of `fcb_pack_name`: characters of the name go to `dst` from `j` on. -/
def packPart (stop : UInt8 → Bool) (last : Nat) :
    List UInt8 → Nat → List UInt8 → List UInt8 × List UInt8
  | [], _, dst => ([], dst)
  | c :: name, j, dst =>
      if stop c ∨ ¬ j < last then (c :: name, dst)
      else packPart stop last name (j + 1) (dst.set j (upper c))

/-- `fcb_pack_name` of the command processor. -/
def fcbPackName (name : List UInt8) : List UInt8 :=
  let base := packPart (· = 46) 8 name 0 (List.replicate 11 32)
  let name := if base.1.head? = some 46 then base.1.tail else base.1
  (packPart (fun _ => false) 11 name 8 base.2).2

/-- What a loop leaves of the name, and what it has written. -/
theorem packPart_eq (stop : UInt8 → Bool) {last : Nat} (name : List UInt8) {j : Nat}
    {dst : List UInt8} (room : last ≤ dst.length) :
    packPart stop last name j dst =
      (name.drop ((name.take (last - j)).takeWhile fun c => !stop c).length,
        dst.take j ++ ((name.take (last - j)).takeWhile fun c => !stop c).map upper ++
          dst.drop (j + ((name.take (last - j)).takeWhile fun c => !stop c).length)) := by
  induction name generalizing j dst with
  | nil => simp [packPart]
  | cons c name ih =>
      rw [packPart]
      by_cases ends : stop c = true ∨ ¬ j < last
      · rw [if_pos ends]
        have none : ((c :: name).take (last - j)).takeWhile (fun c => !stop c) = [] := by
          rcases ends with stops | full
          · cases last - j with
            | zero => rfl
            | succ n => rw [List.take_succ_cons, List.takeWhile_cons_of_neg (by simp [stops])]
          · rw [Nat.sub_eq_zero_of_le (not_lt.mp full), List.take_zero, List.takeWhile_nil]
        rw [none]
        simp
      · rw [if_neg ends, ih (by rwa [List.length_set])]
        rw [not_or, not_not] at ends
        have more : last - j = last - (j + 1) + 1 := by omega
        rw [more, List.take_succ_cons, List.takeWhile_cons_of_pos (by simp [ends.1])]
        have inside : j < dst.length := by omega
        have front : (dst.set j (upper c)).take (j + 1) = dst.take j ++ [upper c] := by
          rw [List.take_succ_eq_append_getElem (by rwa [List.length_set]),
            List.take_set_of_le (Nat.le_refl j), List.getElem_set_self]
        rw [front, List.drop_set_of_lt (by omega), List.length_cons, List.drop_succ_cons,
          List.map_cons, List.append_assoc, List.append_assoc, List.append_assoc,
          List.singleton_append, List.cons_append, Nat.add_assoc, Nat.add_comm 1]

/-- The two packers write the same bytes. -/
theorem fcbPackName_eq_buildRawName (name : List UInt8) : fcbPackName name = buildRawName name := by
  have base : ((name.take (8 - 0)).takeWhile fun c => !decide (c = 46)) = baseChars name := by
    rw [baseChars]
    simp only [decide_not]
  have short := length_baseChars name
  have ext : extChars name =
      (if (name.drop (baseChars name).length).head? = some 46 then
        (name.drop (baseChars name).length).tail
      else name.drop (baseChars name).length).take 3 := by
    unfold extChars
    split
    · rename_i rest split
      rw [split]
      rfl
    · rename_i other
      rw [if_neg]
      intro dot
      obtain ⟨rest, split⟩ := List.head?_eq_some_iff.mp dot
      exact other rest split
  have shortExt := length_extChars name
  unfold fcbPackName
  dsimp only
  rw [packPart_eq (· = 46) name (by simp), base]
  dsimp only
  rw [packPart_eq _ _ (by simp; omega)]
  have all (l : List UInt8) : l.takeWhile (fun _ => !false) = l :=
    List.takeWhile_eq_self_iff.mpr fun _ _ => rfl
  rw [all, show 11 - 8 = 3 from rfl, ← ext]
  have blanks : List.replicate (11 - (baseChars name).length) (32 : UInt8) =
      List.replicate (8 - (baseChars name).length) 32 ++ List.replicate 3 32 := by
    rw [List.replicate_append_replicate]
    congr 1
    omega
  have first : (List.replicate 11 (32 : UInt8)).take 0 ++ (baseChars name).map upper ++
      (List.replicate 11 32).drop (0 + (baseChars name).length) =
      padTo 8 ((baseChars name).map upper) ++ List.replicate 3 32 := by
    rw [List.take_zero, List.nil_append, Nat.zero_add, List.drop_replicate, blanks, padTo,
      List.length_map, List.append_assoc]
  have width : (padTo 8 ((baseChars name).map upper)).length = 8 :=
    length_padTo (by rwa [List.length_map])
  rw [first, List.take_left' width, ← List.drop_drop, List.drop_left' width, List.drop_replicate,
    List.append_assoc, buildRawName, padTo, padTo, List.length_map, List.length_map]

end Packing

section ShortNames

/-- The two parts of an 8.3 name. -/
structure ShortName where
  base : List UInt8
  ext : List UInt8
  base_ne : base ≠ []
  base_le : base.length ≤ 8
  ext_le : ext.length ≤ 3
  base_plain : ∀ c ∈ base, c ≠ 32 ∧ c ≠ 46
  ext_plain : ∀ c ∈ ext, c ≠ 32 ∧ c ≠ 46

theorem ShortName.eq_of_parts {n m : ShortName} (base : n.base = m.base) (ext : n.ext = m.ext) :
    n = m := by
  cases n
  cases m
  cases base
  cases ext
  rfl

/-- `BASE` or `BASE.EXT`. -/
def ShortName.text (n : ShortName) : List UInt8 :=
  if n.ext = [] then n.base else n.base ++ 46 :: n.ext

/-- The 11 characters. -/
def ShortName.raw (n : ShortName) : List UInt8 := padTo 8 n.base ++ padTo 3 n.ext

theorem upper_eq_iff {c v : UInt8} (small : v < 65) : upper c = v ↔ c = v := by
  unfold upper
  split
  · rename_i lower
    obtain ⟨low, high⟩ := lower
    rw [UInt8.lt_iff_toNat_lt] at small
    rw [UInt8.le_iff_toNat_le] at low high
    rw [← UInt8.toNat_inj, ← UInt8.toNat_inj, UInt8.toNat_sub_of_le _ _ (by
      rw [UInt8.le_iff_toNat_le]; exact Nat.le_trans (by decide) low)]
    have s : v.toNat < 65 := small
    have l : 97 ≤ c.toNat := low
    have e : (32 : UInt8).toNat = 32 := rfl
    omega
  · rfl

theorem upper_plain {c : UInt8} (plain : c ≠ 32 ∧ c ≠ 46) : upper c ≠ 32 ∧ upper c ≠ 46 :=
  ⟨fun blank => plain.1 ((upper_eq_iff (by decide)).mp blank),
    fun dot => plain.2 ((upper_eq_iff (by decide)).mp dot)⟩

/-- The name in upper case. -/
def ShortName.upper (n : ShortName) : ShortName where
  base := n.base.map Fat.upper
  ext := n.ext.map Fat.upper
  base_ne := mt List.map_eq_nil_iff.mp n.base_ne
  base_le := by rw [List.length_map]; exact n.base_le
  ext_le := by rw [List.length_map]; exact n.ext_le
  base_plain := List.forall_mem_map.mpr fun c mem => upper_plain (n.base_plain c mem)
  ext_plain := List.forall_mem_map.mpr fun c mem => upper_plain (n.ext_plain c mem)

variable (n : ShortName)

theorem map_upper_text : n.text.map upper = n.upper.text := by
  have dot : upper 46 = 46 := rfl
  unfold ShortName.text
  by_cases none : n.ext = []
  · have none' : n.upper.ext = [] := List.map_eq_nil_iff.mpr none
    rw [if_pos none, if_pos none']
    rfl
  · have some_ : n.upper.ext ≠ [] := mt List.map_eq_nil_iff.mp none
    rw [if_neg none, if_neg some_, List.map_append, List.map_cons, dot]
    rfl

theorem takeWhile_blanks {chars : List UInt8} (plain : ∀ c ∈ chars, c ≠ 32) (width : Nat) :
    (padTo width chars).takeWhile (· ≠ 32) = chars := by
  have none : (List.replicate (width - chars.length) (32 : UInt8)).takeWhile (· ≠ 32) = [] := by
    cases width - chars.length with
    | zero => rfl
    | succ count => rfl
  rw [padTo, List.takeWhile_append_of_pos fun c mem => decide_eq_true (plain c mem), none,
    List.append_nil]

theorem rawToString_raw : rawToString n.raw = n.text := by
  have width := length_padTo n.base_le
  have width' := length_padTo n.ext_le
  rw [rawToString, ShortName.raw, List.take_left' width, List.drop_left' width,
    List.take_of_length_le width'.le, takeWhile_blanks fun c mem => (n.base_plain c mem).1,
    takeWhile_blanks fun c mem => (n.ext_plain c mem).1]
  rfl

/-- Text without the part before the first dot. -/
theorem text_eq : ∃ rest, n.text = n.base ++ rest ∧
    ((rest = [] ∧ n.ext = []) ∨ rest = 46 :: n.ext) := by
  unfold ShortName.text
  by_cases none : n.ext = []
  · rw [if_pos none]
    exact ⟨[], (List.append_nil _).symm, .inl ⟨rfl, none⟩⟩
  · rw [if_neg none]
    exact ⟨_, rfl, .inr rfl⟩

theorem takeWhile_text {rest : List UInt8} (stops : rest = [] ∨ rest.head? = some 46) :
    (n.base ++ rest).takeWhile (· ≠ 46) = n.base := by
  have none : rest.takeWhile (· ≠ 46) = [] := by
    cases rest with
    | nil => rfl
    | cons c rest =>
        obtain rfl := Option.some.inj (stops.resolve_left (List.cons_ne_nil _ _))
        rfl
  rw [List.takeWhile_append_of_pos fun c mem => decide_eq_true (n.base_plain c mem).2, none,
    List.append_nil]

theorem baseChars_text : baseChars n.text = n.base := by
  obtain ⟨rest, text, parts⟩ := text_eq n
  rw [baseChars, text, List.take_append, List.take_of_length_le n.base_le]
  apply takeWhile_text
  rcases parts with ⟨rfl, -⟩ | rfl
  · exact .inl List.take_nil
  · cases 8 - n.base.length with
    | zero => exact .inl rfl
    | succ count => exact .inr rfl

theorem extChars_text : extChars n.text = n.ext := by
  obtain ⟨rest, text, parts⟩ := text_eq n
  rw [extChars, baseChars_text, text, List.drop_left]
  rcases parts with ⟨rfl, none⟩ | rfl
  · exact none.symm
  · exact List.take_of_length_le n.ext_le

theorem buildRawName_text : buildRawName n.text = n.upper.raw := by
  rw [buildRawName, baseChars_text, extChars_text]
  rfl

/-- Text tells the parts. -/
theorem text_inj {n m : ShortName} : n.text = m.text ↔ n = m := by
  refine ⟨fun same => ?_, congrArg _⟩
  apply ShortName.eq_of_parts
  · rw [← baseChars_text n, same, baseChars_text]
  · rw [← extChars_text n, same, extChars_text]

theorem raw_inj {n m : ShortName} : n.raw = m.raw ↔ n = m := by
  refine ⟨fun same => text_inj.mp ?_, congrArg _⟩
  rw [← rawToString_raw n, same, rawToString_raw]

end ShortNames

section Codecs

variable {n : ShortName} {fcb : Fcb}

theorem fcbToName_eq (holds : fcb.slice fcbName 11 = n.raw) : fcbToName fcb = n.text := by
  have width := length_padTo n.base_le
  have width' := length_padTo n.ext_le
  have split : fcb.slice fcbName 8 ++ fcb.slice (fcbName + 8) 3 = n.raw := by
    rw [← holds, ← Buffer.slice_add]
  obtain ⟨base, ext⟩ := List.append_inj split (by rw [Buffer.length_slice, width])
  have some_ext : (padTo 3 n.ext).any (· ≠ 32) = true ↔ n.ext ≠ [] := by
    constructor
    · intro any none
      rw [none] at any
      revert any
      decide
    · intro some_
      obtain ⟨c, rest, parts⟩ := List.exists_cons_of_ne_nil some_
      rw [List.any_eq_true]
      refine ⟨c, ?_, decide_eq_true (n.ext_plain c (by rw [parts]; exact List.mem_cons_self)).1⟩
      rw [padTo, parts]
      exact List.mem_append_left _ List.mem_cons_self
  rw [fcbToName, base, ext, takeWhile_blanks fun c mem => (n.base_plain c mem).1,
    takeWhile_blanks fun c mem => (n.ext_plain c mem).1, ShortName.text]
  by_cases none : n.ext = []
  · rw [if_pos none, if_neg fun any => some_ext.mp any none]
  · rw [if_neg none, if_pos (some_ext.mpr none)]

theorem mem_buildRawName {name : List UInt8} {c : UInt8} (mem : c ∈ buildRawName name) :
    c = 32 ∨ ∃ d ∈ name, upper d = c := by
  have fromBase : ∀ d ∈ baseChars name, d ∈ name := fun d mem =>
    List.mem_of_mem_take ((List.takeWhile_sublist _).subset mem)
  have fromExt : ∀ d ∈ extChars name, d ∈ name := by
    intro d mem
    rw [extChars] at mem
    split at mem
    · rename_i rest split
      refine List.mem_of_mem_drop (i := (baseChars name).length) ?_
      rw [split]
      exact List.mem_cons_of_mem _ (List.mem_of_mem_take mem)
    · exact List.mem_of_mem_drop (List.mem_of_mem_take mem)
  have part {width : Nat} {chars : List UInt8} (within : ∀ d ∈ chars, d ∈ name)
      (mem : c ∈ padTo width (chars.map upper)) : c = 32 ∨ ∃ d ∈ name, upper d = c := by
    rcases List.mem_append.mp mem with char | blank
    · obtain ⟨d, mem, same⟩ := List.mem_map.mp char
      exact .inr ⟨d, within d mem, same⟩
    · exact .inl (List.eq_of_mem_replicate blank)
  rcases List.mem_append.mp mem with base | ext
  · exact part fromBase base
  · exact part fromExt ext

theorem mem_text_iff {c : UInt8} (other : c ≠ 32) (notDot : c ≠ 46) : c ∈ n.text ↔ c ∈ n.raw := by
  have blanks {width : Nat} {chars : List UInt8} : c ∈ padTo width chars ↔ c ∈ chars := by
    rw [padTo, List.mem_append, List.mem_replicate]
    exact or_iff_left fun blank => other blank.2
  rw [ShortName.raw, List.mem_append, blanks, blanks, ShortName.text]
  split
  · rename_i none
    rw [none]
    simp
  · rw [List.mem_append, List.mem_cons]
    exact or_congr_right (or_iff_right notDot)

/-- A name comes back through a C string exactly when it has no NUL. -/
theorem buildRawName_cString_iff (canonical : n.upper = n) :
    buildRawName (cString n.text) = n.raw ↔ 0 ∉ n.raw := by
  constructor
  · intro back nul
    rw [← back] at nul
    rcases mem_buildRawName nul with blank | ⟨d, mem, zero⟩
    · cases blank
    · have noNul := List.mem_takeWhile_imp mem
      rw [(upper_eq_iff (by decide)).mp zero] at noNul
      cases noNul
  · intro noNul
    have whole : cString n.text = n.text :=
      List.takeWhile_eq_self_iff.mpr fun c mem => decide_eq_true fun zero =>
        noNul ((mem_text_iff (by decide) (by decide)).mp (zero ▸ mem))
    rw [whole, buildRawName_text, canonical]

/-- The comparison of `name_match_83` is equality of the packed names. -/
theorem nameMatch83_iff (canonical : n.upper = n) (s : ShortName) :
    nameMatch83 n.raw s.text = true ↔ buildRawName s.text = n.raw := by
  rw [nameMatch83, decide_eq_true_iff, rawToString_raw, map_upper_text, map_upper_text, canonical,
    text_inj, buildRawName_text, raw_inj, eq_comm]

/-- The codecs agree: an upper-case name comes back from a control block through text exactly
when it has no NUL, the two packers write the same bytes, and the comparison of the driver is
equality of what they write. -/
theorem name_codecs_agree :
    (∀ (n : ShortName) (fcb : Fcb), n.upper = n → fcb.slice fcbName 11 = n.raw →
      (buildRawName (cString (fcbToName fcb)) = n.raw ↔ 0 ∉ n.raw)) ∧
    (∀ name, fcbPackName name = buildRawName name) ∧
    ∀ n s : ShortName, n.upper = n → (nameMatch83 n.raw s.text = true ↔
      buildRawName s.text = n.raw) := by
  refine ⟨fun n fcb canonical holds => ?_, fcbPackName_eq_buildRawName,
    fun n s canonical => nameMatch83_iff canonical s⟩
  rw [fcbToName_eq holds, buildRawName_cString_iff canonical]

def readme : ShortName where
  base := [82, 69, 65, 68, 77, 69]
  ext := [84, 88, 84]
  base_ne := by decide
  base_le := by decide
  ext_le := by decide
  base_plain := by simp
  ext_plain := by simp

theorem name_codecs_agree_readme :
    buildRawName (cString (fcbToName (Buffer.zero.blit fcbName readme.raw))) = readme.raw ∧
      fcbPackName readme.text = readme.raw :=
  ⟨(name_codecs_agree.1 readme _ (ShortName.eq_of_parts rfl rfl) (by decide)).mpr (by decide),
    (name_codecs_agree.2.1 readme.text).trans (by decide)⟩

/-- `A` with a NUL behind it. -/
def withNul : ShortName where
  base := [65, 0]
  ext := []
  base_ne := by decide
  base_le := by decide
  ext_le := by decide
  base_plain := by simp
  ext_plain := by simp

/-- A canonical name with a NUL comes back without it. -/
theorem name_with_nul_is_cut :
    withNul.upper = withNul ∧
      (Buffer.zero.blit fcbName withNul.raw : Fcb).slice fcbName 11 = withNul.raw ∧
      buildRawName (cString (fcbToName (Buffer.zero.blit fcbName withNul.raw))) ≠ withNul.raw :=
  ⟨ShortName.eq_of_parts rfl rfl, by decide, by decide⟩

end Codecs

end Ncd15.Bdos
