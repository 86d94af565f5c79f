import Mathlib.Data.BitVec
import Mathlib.Data.List.GetD

/-!
# Network-order packing

The `H`, `I` and `s` items of a format string in network byte order.  A field
out of range makes the whole pack fail.
-/

namespace Ncd15.Library

/-- One item of a format string with its value. -/
inductive PackField
  | H (value : Nat)
  | I (value : Nat)
  | s (bytes : List (BitVec 8))

namespace PackField

def fits : PackField → Bool
  | .H value => value < 2 ^ 16
  | .I value => value < 2 ^ 32
  | .s _ => true

def bytes : PackField → List (BitVec 8)
  | .H value => [BitVec.ofNat 8 (value / 256), BitVec.ofNat 8 value]
  | .I value =>
      [BitVec.ofNat 8 (value / 2 ^ 24), BitVec.ofNat 8 (value / 2 ^ 16),
        BitVec.ofNat 8 (value / 256), BitVec.ofNat 8 value]
  | .s bytes => bytes

@[simp] theorem length_bytes_H (value : Nat) : (H value).bytes.length = 2 := rfl

@[simp] theorem length_bytes_I (value : Nat) : (I value).bytes.length = 4 := rfl

@[simp] theorem length_bytes_s (bytes : List (BitVec 8)) :
    (s bytes).bytes.length = bytes.length := rfl

end PackField

def packed (fields : List PackField) : List (BitVec 8) :=
  fields.flatMap PackField.bytes

@[simp] theorem packed_append (first second : List PackField) :
    packed (first ++ second) = packed first ++ packed second :=
  List.flatMap_append

@[simp] theorem packed_cons (field : PackField) (fields : List PackField) :
    packed (field :: fields) = field.bytes ++ packed fields :=
  List.flatMap_cons

@[simp] theorem packed_nil : packed [] = [] := rfl

/-- `struct.pack`; `none` is `struct.error`. -/
def structPack (fields : List PackField) : Option (List (BitVec 8)) :=
  if fields.all PackField.fits then some (packed fields) else none

theorem structPack_of_fits {fields : List PackField}
    (fit : ∀ field ∈ fields, field.fits = true) :
    structPack fields = some (packed fields) :=
  if_pos (List.all_eq_true.mpr fit)

def half (bytes : Nat → BitVec 8) (offset : Nat) : BitVec 16 :=
  bytes offset ++ bytes (offset + 1)

def word (bytes : Nat → BitVec 8) (offset : Nat) : BitVec 32 :=
  bytes offset ++ bytes (offset + 1) ++ bytes (offset + 2) ++ bytes (offset + 3)

theorem half_congr {first second : Nat → BitVec 8} {off off' : Nat}
    (same : ∀ i < 2, first (off + i) = second (off' + i)) :
    half first off = half second off' := by
  have at0 := same 0 (by decide)
  have at1 := same 1 (by decide)
  simp only [half, Nat.add_zero] at at0 ⊢
  rw [at0, at1]

theorem word_congr {first second : Nat → BitVec 8} {off off' : Nat}
    (same : ∀ i < 4, first (off + i) = second (off' + i)) :
    word first off = word second off' := by
  have at0 := same 0 (by decide)
  have at1 := same 1 (by decide)
  have at2 := same 2 (by decide)
  have at3 := same 3 (by decide)
  simp only [word, Nat.add_zero] at at0 ⊢
  rw [at0, at1, at2, at3]

theorem toNat_append_eq {m n : Nat} (front : BitVec m) (back : BitVec n) :
    (front ++ back).toNat = front.toNat * 2 ^ n + back.toNat := by
  rw [BitVec.toNat_append, ← Nat.shiftLeft_add_eq_or_of_lt back.isLt, Nat.shiftLeft_eq]

theorem toNat_half (bytes : Nat → BitVec 8) (offset : Nat) :
    (half bytes offset).toNat = (bytes offset).toNat * 2 ^ 8 + (bytes (offset + 1)).toNat :=
  toNat_append_eq _ _

theorem toNat_word (bytes : Nat → BitVec 8) (offset : Nat) :
    (word bytes offset).toNat =
      (((bytes offset).toNat * 2 ^ 8 + (bytes (offset + 1)).toNat) * 2 ^ 8 +
        (bytes (offset + 2)).toNat) * 2 ^ 8 + (bytes (offset + 3)).toNat := by
  refine (toNat_append_eq _ _).trans ?_
  rw [toNat_append_eq, toNat_append_eq]

theorem half_bytes_H (value : Nat) :
    half (fun i => (PackField.H value).bytes.getD i 0) 0 = BitVec.ofNat 16 value := by
  apply BitVec.eq_of_toNat_eq
  simp only [toNat_half, PackField.bytes, List.getD_cons_zero, List.getD_cons_succ,
    BitVec.toNat_ofNat]
  omega

theorem word_bytes_I (value : Nat) :
    word (fun i => (PackField.I value).bytes.getD i 0) 0 = BitVec.ofNat 32 value := by
  apply BitVec.eq_of_toNat_eq
  simp only [toNat_word, PackField.bytes, List.getD_cons_zero, List.getD_cons_succ,
    BitVec.toNat_ofNat]
  omega

section Items

/-- The bytes of one item lie behind those of the items before it. -/
theorem getD_packed (front back : List PackField) (field : PackField)
    (rest : List (BitVec 8)) {i : Nat} (small : i < field.bytes.length) :
    (packed (front ++ field :: back) ++ rest).getD ((packed front).length + i) 0 =
      field.bytes.getD i 0 := by
  rw [packed_append, packed_cons, List.append_assoc, List.append_assoc,
    List.getD_append_right _ _ _ _ (Nat.le_add_right _ _), Nat.add_sub_cancel_left,
    List.getD_append _ _ _ _ small]

variable {fields : List PackField} {k value off : Nat} (rest : List (BitVec 8))

theorem eq_take_append_of_getElem? {field : PackField} (item : fields[k]? = some field) :
    fields = fields.take k ++ field :: fields.drop (k + 1) := by
  obtain ⟨bound, rfl⟩ := List.getElem?_eq_some_iff.mp item
  rw [List.getElem_cons_drop, List.take_append_drop]

theorem half_packed (item : fields[k]? = some (.H value))
    (start : (packed (fields.take k)).length = off) :
    half (fun i => (packed fields ++ rest).getD i 0) off = BitVec.ofNat 16 value := by
  rw [← half_bytes_H value]
  refine half_congr fun i small => ?_
  rw [Nat.zero_add]
  have read := getD_packed (fields.take k) (fields.drop (k + 1)) (.H value) rest small
  rwa [← eq_take_append_of_getElem? item, start] at read

theorem word_packed (item : fields[k]? = some (.I value))
    (start : (packed (fields.take k)).length = off) :
    word (fun i => (packed fields ++ rest).getD i 0) off = BitVec.ofNat 32 value := by
  rw [← word_bytes_I value]
  refine word_congr fun i small => ?_
  rw [Nat.zero_add]
  have read := getD_packed (fields.take k) (fields.drop (k + 1)) (.I value) rest small
  rwa [← eq_take_append_of_getElem? item, start] at read

end Items

end Ncd15.Library
