import Mathlib.Data.List.GetD
import Mathlib.Data.List.OfFn
import Mathlib.Data.Fintype.Pi
import Mathlib.Tactic.Ring

/-!
# Fixed-size byte buffers

A buffer is a function on the indices below its size.  Reads past the end give
zero and writes past the end are lost, so that every operation is total.  All
writes are block writes; words are stored as the block of their bytes.
-/

namespace Ncd15.Library

/-- A buffer of `size` bytes. -/
def Buffer (size : Nat) := Fin size → UInt8

instance {size : Nat} : DecidableEq (Buffer size) :=
  inferInstanceAs (DecidableEq (Fin size → UInt8))

namespace Buffer

variable {size : Nat}

def zero : Buffer size := fun _ => 0

def get (b : Buffer size) (i : Nat) : UInt8 :=
  if h : i < size then b ⟨i, h⟩ else 0

def blit (b : Buffer size) (off : Nat) (bytes : List UInt8) : Buffer size :=
  fun i =>
    if off ≤ i.val ∧ i.val < off + bytes.length then bytes.getD (i.val - off) 0 else b i

def slice (b : Buffer size) (off length : Nat) : List UInt8 :=
  (List.range length).map fun i => b.get (off + i)

theorem ext {first second : Buffer size}
    (same : ∀ i, i < size → first.get i = second.get i) : first = second := by
  funext i
  have atIndex := same i.val i.isLt
  simpa [get] using atIndex

theorem get_of_le (b : Buffer size) {i : Nat} (outside : size ≤ i) : b.get i = 0 := by
  simp [get, Nat.not_lt.mpr outside]

@[simp] theorem get_zero (i : Nat) : (zero : Buffer size).get i = 0 := by
  simp [get, zero]

section Blit

variable (b : Buffer size) {off i : Nat} {bytes : List UInt8}

theorem get_blit_of_lt (before : i < off) : (b.blit off bytes).get i = b.get i := by
  simp [get, blit, Nat.not_le.mpr before]

theorem get_blit_of_ge (after : off + bytes.length ≤ i) :
    (b.blit off bytes).get i = b.get i := by
  simp [get, blit, Nat.not_lt.mpr after]

theorem get_blit_of_disjoint (disjoint : i < off ∨ off + bytes.length ≤ i) :
    (b.blit off bytes).get i = b.get i := by
  rcases disjoint with before | after
  · exact get_blit_of_lt b before
  · exact get_blit_of_ge b after

theorem get_blit_of_mem (after : off ≤ i) (before : i < off + bytes.length)
    (fits : off + bytes.length ≤ size) :
    (b.blit off bytes).get i = bytes.getD (i - off) 0 := by
  simp [get, blit, after, before, lt_of_lt_of_le before fits]

theorem get_blit_singleton {byte : UInt8} (inside : off < size) :
    (b.blit off [byte]).get i = if i = off then byte else b.get i := by
  split
  · rename_i same
    subst same
    simp [get, blit, inside]
  · rename_i other
    exact get_blit_of_disjoint b (by simp only [List.length_singleton]; omega)

theorem get_blit_zeros {count : Nat} (after : off ≤ i) (before : i < off + count)
    (fits : off + count ≤ size) : (b.blit off (List.replicate count 0)).get i = 0 := by
  rw [get_blit_of_mem b after (by simpa using before) (by simpa using fits)]
  exact List.getD_replicate _ (by omega)

theorem blit_append (off : Nat) (first second : List UInt8) :
    b.blit off (first ++ second) = (b.blit off first).blit (off + first.length) second := by
  funext i
  by_cases inSecond : off + first.length ≤ i.val
  · have shift : i.val - off - first.length = i.val - (off + first.length) := by omega
    simp only [blit, List.length_append, List.getD_append_right _ _ _ _
      (show first.length ≤ i.val - off by omega), shift]
    split <;> split <;> first | rfl | omega | (split <;> first | rfl | omega)
  · by_cases inFirst : off ≤ i.val
    · simp only [blit, List.length_append, List.getD_append _ _ _ _
        (show i.val - off < first.length by omega)]
      rw [if_pos (by omega), if_neg (by omega), if_pos (by omega)]
    · simp only [blit]
      rw [if_neg (by omega), if_neg (by omega), if_neg (by omega)]

end Blit

section Slice

@[simp] theorem length_slice (b : Buffer size) (off length : Nat) :
    (b.slice off length).length = length := by
  simp [slice]

theorem getD_slice (b : Buffer size) (off : Nat) {length i : Nat} (bound : i < length) :
    (b.slice off length).getD i 0 = b.get (off + i) := by
  simp [slice, bound]

theorem slice_add (b : Buffer size) (off first second : Nat) :
    b.slice off (first + second) = b.slice off first ++ b.slice (off + first) second := by
  simp [slice, List.range_add, Nat.add_assoc]

theorem slice_congr {first second : Buffer size} {off length : Nat}
    (same : ∀ i, off ≤ i → i < off + length → first.get i = second.get i) :
    first.slice off length = second.slice off length := by
  apply List.map_congr_left
  intro i inRange
  rw [List.mem_range] at inRange
  exact same (off + i) (by omega) (by omega)

theorem slice_blit_of_disjoint (b : Buffer size) {off pos length : Nat}
    {bytes : List UInt8} (disjoint : pos + length ≤ off ∨ off + bytes.length ≤ pos) :
    (b.blit off bytes).slice pos length = b.slice pos length := by
  apply slice_congr
  intro i after before
  apply get_blit_of_disjoint
  omega

theorem slice_blit_self (b : Buffer size) (off : Nat) (bytes : List UInt8)
    (fits : off + bytes.length ≤ size) :
    (b.blit off bytes).slice off bytes.length = bytes := by
  apply List.ext_getElem
  · simp
  intro i inSlice inBytes
  have atIndex : (b.blit off bytes).get (off + i) = bytes.getD (off + i - off) 0 :=
    get_blit_of_mem b (by omega) (by omega) fits
  simp [slice, atIndex, inBytes]

/-- Writing back what is there changes nothing. -/
theorem blit_slice_self (b : Buffer size) (off length : Nat) :
    b.blit off (b.slice off length) = b := by
  apply ext
  intro i inside
  by_cases within : off ≤ i ∧ i < off + length
  · have value := getD_slice b off (show i - off < length by omega)
    rw [show off + (i - off) = i by omega] at value
    simpa [get, blit, inside, within] using value
  · apply get_blit_of_disjoint
    rw [length_slice]
    omega

end Slice

section Words

/-- The low `width` bytes of a number, least significant first. -/
def leBytes : Nat → Nat → List UInt8
  | 0, _ => []
  | width + 1, v => UInt8.ofNat v :: leBytes width (v / 256)

/-- The low `width` bytes of a number, most significant first. -/
def beBytes : Nat → Nat → List UInt8
  | 0, _ => []
  | width + 1, v => UInt8.ofNat (v / 256 ^ width) :: beBytes width v

def loadLe (b : Buffer size) (off : Nat) : Nat → Nat
  | 0 => 0
  | width + 1 => (b.get off).toNat + 256 * b.loadLe (off + 1) width

def loadBe (b : Buffer size) (off : Nat) : Nat → Nat
  | 0 => 0
  | width + 1 => 256 ^ width * (b.get off).toNat + b.loadBe (off + 1) width

@[simp] theorem length_leBytes (width v : Nat) : (leBytes width v).length = width := by
  induction width generalizing v with
  | zero => rfl
  | succ width ih => simp [leBytes, ih]

@[simp] theorem length_beBytes (width v : Nat) : (beBytes width v).length = width := by
  induction width with
  | zero => rfl
  | succ width ih => simp [beBytes, ih]

/-- A word depends on its bytes only, wherever they are. -/
theorem loadLe_shift {size' : Nat} {first : Buffer size} {second : Buffer size'}
    {off off' width : Nat}
    (same : ∀ i, i < width → first.get (off + i) = second.get (off' + i)) :
    first.loadLe off width = second.loadLe off' width := by
  induction width generalizing off off' with
  | zero => rfl
  | succ width ih =>
      have tail : first.loadLe (off + 1) width = second.loadLe (off' + 1) width := by
        apply ih
        intro i bound
        rw [Nat.add_assoc, Nat.add_assoc, Nat.add_comm 1 i]
        exact same (i + 1) (by omega)
      rw [loadLe, loadLe, tail, show first.get off = second.get off' from same 0 (by omega)]

theorem loadLe_congr {first second : Buffer size} {off width : Nat}
    (same : ∀ i, off ≤ i → i < off + width → first.get i = second.get i) :
    first.loadLe off width = second.loadLe off width :=
  loadLe_shift fun i bound => same (off + i) (by omega) (by omega)

theorem loadBe_congr {first second : Buffer size} {off width : Nat}
    (same : ∀ i, off ≤ i → i < off + width → first.get i = second.get i) :
    first.loadBe off width = second.loadBe off width := by
  induction width generalizing off with
  | zero => rfl
  | succ width ih =>
      rw [loadBe, loadBe, same off (by omega) (by omega),
        ih fun i after before => same i (by omega) (by omega)]

theorem loadLe_lt (b : Buffer size) (off width : Nat) :
    b.loadLe off width < 256 ^ width := by
  induction width generalizing off with
  | zero => simp [loadLe]
  | succ width ih =>
      have head := (b.get off).toNat_lt
      have tail := ih (off + 1)
      rw [loadLe, pow_succ]
      omega

theorem loadLe_of_zeros {b : Buffer size} {off width : Nat}
    (zeros : ∀ i, i < width → b.get (off + i) = 0) : b.loadLe off width = 0 := by
  induction width generalizing off with
  | zero => rfl
  | succ width ih =>
      have head : b.get off = 0 := zeros 0 (Nat.succ_pos width)
      have tail : b.loadLe (off + 1) width = 0 := by
        apply ih
        intro i bound
        rw [Nat.add_assoc, Nat.add_comm 1 i]
        exact zeros (i + 1) (Nat.succ_lt_succ bound)
      rw [loadLe, head, tail]
      rfl

theorem loadLe_of_bytes {b : Buffer size} {off width v : Nat}
    (stored : ∀ i, i < width → b.get (off + i) = (leBytes width v).getD i 0) :
    b.loadLe off width = v % 256 ^ width := by
  induction width generalizing off v with
  | zero => simp [loadLe, Nat.mod_one]
  | succ width ih =>
      have head : b.get off = UInt8.ofNat v := by
        simpa [leBytes] using stored 0 (by omega)
      have tail : b.loadLe (off + 1) width = v / 256 % 256 ^ width := by
        apply ih
        intro i bound
        have next := stored (i + 1) (by omega)
        rw [show off + 1 + i = off + (i + 1) by omega, next]
        simp [leBytes]
      rw [loadLe, head, tail, pow_succ, Nat.mul_comm (256 ^ width), Nat.mod_mul]
      simp

theorem loadBe_of_bytes {b : Buffer size} {off width v : Nat}
    (stored : ∀ i, i < width → b.get (off + i) = (beBytes width v).getD i 0) :
    b.loadBe off width = v % 256 ^ width := by
  induction width generalizing off with
  | zero => simp [loadBe, Nat.mod_one]
  | succ width ih =>
      have head : b.get off = UInt8.ofNat (v / 256 ^ width) := by
        simpa [beBytes] using stored 0 (by omega)
      have tail : b.loadBe (off + 1) width = v % 256 ^ width := by
        apply ih
        intro i bound
        have next := stored (i + 1) (by omega)
        rw [show off + 1 + i = off + (i + 1) by omega, next]
        simp [beBytes]
      rw [loadBe, head, tail, pow_succ, Nat.mod_mul]
      simp [Nat.add_comm]

variable (b : Buffer size) {off width : Nat}

theorem loadLe_blit_self (off width v : Nat) (fits : off + width ≤ size) :
    (b.blit off (leBytes width v)).loadLe off width = v % 256 ^ width := by
  apply loadLe_of_bytes
  intro i bound
  rw [get_blit_of_mem b (by omega) (by simpa using bound) (by simpa using fits)]
  congr 1
  omega

theorem loadBe_blit_self (off width v : Nat) (fits : off + width ≤ size) :
    (b.blit off (beBytes width v)).loadBe off width = v % 256 ^ width := by
  apply loadBe_of_bytes
  intro i bound
  rw [get_blit_of_mem b (by omega) (by simpa using bound) (by simpa using fits)]
  congr 1
  omega

theorem loadLe_blit_of_disjoint {pos : Nat} {bytes : List UInt8}
    (disjoint : pos + width ≤ off ∨ off + bytes.length ≤ pos) :
    (b.blit off bytes).loadLe pos width = b.loadLe pos width := by
  apply loadLe_congr
  intro i after before
  apply get_blit_of_disjoint
  omega

theorem loadBe_blit_of_disjoint {pos : Nat} {bytes : List UInt8}
    (disjoint : pos + width ≤ off ∨ off + bytes.length ≤ pos) :
    (b.blit off bytes).loadBe pos width = b.loadBe pos width := by
  apply loadBe_congr
  intro i after before
  apply get_blit_of_disjoint
  omega

/-- The bytes of a word are the bytes it was loaded from. -/
theorem leBytes_loadLe (off width : Nat) :
    leBytes width (b.loadLe off width) = b.slice off width := by
  induction width generalizing off with
  | zero => rfl
  | succ width ih =>
      have head := (b.get off).toNat_lt
      have shift : 1 + width = width + 1 := Nat.add_comm 1 width
      rw [loadLe, leBytes, ← shift, slice_add, ← ih (off + 1)]
      have rest : ((b.get off).toNat + 256 * b.loadLe (off + 1) width) / 256 =
          b.loadLe (off + 1) width := by omega
      rw [rest]
      simp [slice]

end Words

end Buffer

end Ncd15.Library
