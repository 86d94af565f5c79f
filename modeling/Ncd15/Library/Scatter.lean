import Mathlib.Data.List.Basic
import Mathlib.Data.List.Nodup

/-!
# Fields scattered over an array

A field is a list of positions, in the order of its values, so that a field may be swapped,
interleaved with others or lie wherever it will.  Fields that share no position can be
stored one after the other and are all read back.
-/

namespace Ncd15.Library

variable {α : Type} {size : Nat}

/-- Store the values at the positions. -/
def scatterAt (v : Vector α size) (positions : List Nat) (values : List α) : Vector α size :=
  (positions.zip values).foldl (fun v pair => v.setIfInBounds pair.1 pair.2) v

def gatherAt (v : Vector α size) (positions : List Nat) : List (Option α) :=
  positions.map fun i => v[i]?

/-- Positions with the values that go there, if the field is stored at all. -/
structure ScatteredField (α : Type) where
  positions : List Nat
  values : Option (List α)

def ScatteredField.store (field : ScatteredField α) (v : Vector α size) : Vector α size :=
  match field.values with
  | none => v
  | some values => scatterAt v field.positions values

def storeFields (v : Vector α size) (fields : List (ScatteredField α)) : Vector α size :=
  fields.foldl (fun v field => field.store v) v

/-- Every field has its own positions, all of them in the array, and as many values. -/
structure FieldsApart (size : Nat) (fields : List (ScatteredField α)) : Prop where
  nodup : (fields.flatMap ScatteredField.positions).Nodup
  inside : ∀ field ∈ fields, ∀ i ∈ field.positions, i < size
  filled : ∀ field ∈ fields, ∀ values ∈ field.values, values.length = field.positions.length

/-- Writes to different positions may be made in either order. -/
theorem setIfInBounds_comm (v : Vector α size) {i j : Nat} (x y : α) (other : i ≠ j) :
    (v.setIfInBounds i x).setIfInBounds j y = (v.setIfInBounds j y).setIfInBounds i x := by
  ext k bound
  simp only [Vector.getElem_setIfInBounds]
  by_cases first : i = k
  · have second : j ≠ k := fun same => other (first.trans same.symm)
    rw [if_neg second, if_pos first, if_pos first]
  · rw [if_neg first, if_neg first]

theorem scatterAt_cons (v : Vector α size) (i : Nat) (positions : List Nat) (x : α)
    (values : List α) :
    scatterAt v (i :: positions) (x :: values) = scatterAt (v.setIfInBounds i x) positions values :=
  rfl

theorem scatterAt_other {v : Vector α size} {positions : List Nat} {values : List α} {i : Nat}
    (other : i ∉ positions) : (scatterAt v positions values)[i]? = v[i]? := by
  induction positions generalizing v values with
  | nil => rfl
  | cons j positions ih =>
      cases values with
      | nil => rfl
      | cons x values =>
          rw [List.mem_cons, not_or] at other
          rw [scatterAt_cons, ih other.2, Vector.getElem?_setIfInBounds_ne (Ne.symm other.1)]

theorem gatherAt_scatterAt {v : Vector α size} {positions : List Nat} {values : List α}
    (nodup : positions.Nodup) (inside : ∀ i ∈ positions, i < size)
    (filled : values.length = positions.length) :
    gatherAt (scatterAt v positions values) positions = values.map some := by
  induction positions generalizing v values with
  | nil =>
      cases values with
      | nil => rfl
      | cons x values => cases filled
  | cons i positions ih =>
      cases values with
      | nil => cases filled
      | cons x values =>
          rw [List.nodup_cons] at nodup
          rw [List.forall_mem_cons] at inside
          have rest := ih (v := v.setIfInBounds i x) nodup.2 inside.2 (Nat.succ.inj filled)
          rw [scatterAt_cons, gatherAt, List.map_cons, scatterAt_other nodup.1,
            Vector.getElem?_setIfInBounds_self_of_lt inside.1]
          exact congrArg _ rest

theorem store_other {v : Vector α size} {field : ScatteredField α} {i : Nat}
    (other : i ∉ field.positions) : (field.store v)[i]? = v[i]? := by
  rw [ScatteredField.store]
  split
  · rfl
  · exact scatterAt_other other

theorem storeFields_other {v : Vector α size} {fields : List (ScatteredField α)} {i : Nat}
    (other : ∀ field ∈ fields, i ∉ field.positions) : (storeFields v fields)[i]? = v[i]? := by
  induction fields generalizing v with
  | nil => rfl
  | cons field fields ih =>
      rw [List.forall_mem_cons] at other
      exact (ih other.2).trans (store_other other.1)

theorem gatherAt_congr {v w : Vector α size} {positions : List Nat}
    (same : ∀ i ∈ positions, w[i]? = v[i]?) : gatherAt w positions = gatherAt v positions :=
  List.map_congr_left same

/-- Each field holds its own values, or what was there before. -/
theorem gatherAt_storeFields {v : Vector α size} {fields : List (ScatteredField α)}
    (fieldsApart : FieldsApart size fields) {field : ScatteredField α} (mem : field ∈ fields) :
    gatherAt (storeFields v fields) field.positions =
      match field.values with
      | none => gatherAt v field.positions
      | some values => values.map some := by
  obtain ⟨nodup, inside, filled⟩ := fieldsApart
  induction fields generalizing v with
  | nil => cases mem
  | cons first fields ih =>
      rw [List.flatMap_cons, List.nodup_append'] at nodup
      obtain ⟨own, others, apart⟩ := nodup
      rw [List.forall_mem_cons] at inside filled
      change gatherAt (storeFields (first.store v) fields) _ = _
      rcases List.mem_cons.mp mem with rfl | later
      · have kept : gatherAt (storeFields (field.store v) fields) field.positions =
            gatherAt (field.store v) field.positions := by
          refine gatherAt_congr fun i here => storeFields_other fun other otherMem there => ?_
          exact apart here (List.mem_flatMap.mpr ⟨other, otherMem, there⟩)
        rw [kept, ScatteredField.store]
        split
        · rfl
        · rename_i values stored
          exact gatherAt_scatterAt own inside.1 (filled.1 values stored)
      · rw [ih later others inside.2 filled.2]
        split
        · refine gatherAt_congr fun i here => store_other fun there => ?_
          exact apart there (List.mem_flatMap.mpr ⟨field, later, here⟩)
        · rfl

end Ncd15.Library
