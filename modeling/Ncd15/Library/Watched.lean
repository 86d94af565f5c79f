import Ncd15.Library.Buffer

/-!
# Watched buffers

A buffer that notes whether every write to it has been inside.  Loops of stores run over a
list of indices, each store seeing what the ones before it have left, so that a move within
one buffer may run in either direction.
-/

namespace Ncd15.Library

/-- A buffer, and whether every write to it so far has been inside. -/
structure Watched (size : Nat) where
  buf : Buffer size
  inside : Bool

namespace Watched

variable {size : Nat}

/-- `buf[i] = c`. -/
def store (w : Watched size) (i : Nat) (c : UInt8) : Watched size :=
  { buf := w.buf.blit i [c], inside := w.inside && i < size }

/-- A loop that stores `value i` at `target i` for some `i` in turn. -/
def storeAll (w : Watched size) (target : Nat → Nat) (value : Watched size → Nat → UInt8)
    (indices : List Nat) : Watched size :=
  indices.foldl (fun w i => w.store (target i) (value w i)) w

/-- `for (i = 0; i < n; i++) buf[off + i] = bytes[i]`. -/
def copyIn (w : Watched size) (off : Nat) (bytes : List UInt8) : Watched size :=
  w.storeAll (off + ·) (fun _ i => bytes.getD i 0) (List.range bytes.length)

@[simp] theorem inside_store (w : Watched size) (i : Nat) (c : UInt8) :
    (w.store i c).inside = (w.inside && decide (i < size)) := rfl

theorem get_store (w : Watched size) {i : Nat} (c : UInt8) (within : i < size) :
    (w.store i c).buf.get i = c := by
  rw [store, Buffer.get_blit_singleton _ within, if_pos rfl]

theorem get_store_ne (w : Watched size) {i j : Nat} (c : UInt8) (other : j ≠ i) :
    (w.store i c).buf.get j = w.buf.get j :=
  Buffer.get_blit_of_disjoint _ (by simp only [List.length_singleton]; omega)

/-- One more character behind those at the front. -/
theorem slice_store_next (w : Watched size) {n : Nat} (c : UInt8) (room : n < size) :
    (w.store n c).buf.slice 0 (n + 1) = w.buf.slice 0 n ++ [c] := by
  have front : (w.store n c).buf.slice 0 n = w.buf.slice 0 n :=
    Buffer.slice_blit_of_disjoint _ (.inl (by omega))
  have last : (w.store n c).buf.slice n 1 = [c] := Buffer.slice_blit_self _ n [c] room
  rw [Buffer.slice_add, Nat.zero_add, front, last]

/-- A loop whose stores are all inside. -/
theorem inside_storeAll {w : Watched size} {target : Nat → Nat}
    {value : Watched size → Nat → UInt8} {indices : List Nat} (inside : w.inside = true)
    (within : ∀ i ∈ indices, target i < size) :
    (w.storeAll target value indices).inside = true := by
  induction indices generalizing w with
  | nil => exact inside
  | cons i rest ih =>
      refine ih ?_ fun j mem => within j (List.mem_cons_of_mem _ mem)
      simp [inside, within i List.mem_cons_self]

/-- A write outside is never forgotten. -/
theorem inside_of_storeAll {w : Watched size} {target : Nat → Nat}
    {value : Watched size → Nat → UInt8} {indices : List Nat}
    (inside : (w.storeAll target value indices).inside = true) : w.inside = true := by
  induction indices generalizing w with
  | nil => exact inside
  | cons i rest ih =>
      have stored := ih inside
      rw [inside_store, Bool.and_eq_true] at stored
      exact stored.1

theorem get_storeAll_of_ne {w : Watched size} {target : Nat → Nat}
    {value : Watched size → Nat → UInt8} {indices : List Nat} {i : Nat}
    (other : ∀ j ∈ indices, i ≠ target j) :
    (w.storeAll target value indices).buf.get i = w.buf.get i := by
  induction indices generalizing w with
  | nil => rfl
  | cons j rest ih =>
      exact (ih fun k mem => other k (List.mem_cons_of_mem _ mem)).trans
        (get_store_ne w _ (other j List.mem_cons_self))

theorem get_copyIn_of_disjoint (w : Watched size) {off i : Nat} {bytes : List UInt8}
    (outside : i < off ∨ off + bytes.length ≤ i) :
    (w.copyIn off bytes).buf.get i = w.buf.get i := by
  apply get_storeAll_of_ne
  intro j mem
  have small := List.mem_range.mp mem
  omega

theorem inside_copyIn {w : Watched size} {off : Nat} {bytes : List UInt8}
    (inside : w.inside = true) (within : off + bytes.length ≤ size) :
    (w.copyIn off bytes).inside = true := by
  refine inside_storeAll inside fun i mem => ?_
  have small := List.mem_range.mp mem
  omega

/-- Bytes moved down by one place, the lowest first. -/
theorem get_moveDown (w : Watched size) {n j : Nat} (within : n ≤ size) (inside : j < size) :
    (w.storeAll id (fun w i => w.buf.get (i + 1)) (List.range n)).buf.get j =
      if j < n then w.buf.get (j + 1) else w.buf.get j := by
  induction n generalizing j with
  | zero => rfl
  | succ n ih =>
      have last (i : Nat) : (w.storeAll id (fun w i => w.buf.get (i + 1))
          (List.range (n + 1))).buf.get i =
          if i = n then (w.storeAll id (fun w i => w.buf.get (i + 1)) (List.range n)).buf.get (n + 1)
          else (w.storeAll id (fun w i => w.buf.get (i + 1)) (List.range n)).buf.get i := by
        simp only [storeAll, List.range_succ, List.foldl_append, List.foldl_cons, List.foldl_nil]
        exact Buffer.get_blit_singleton _ within
      rw [last]
      by_cases same : j = n
      · subst same
        rw [if_pos rfl, if_pos (Nat.lt_succ_self j)]
        by_cases room : j + 1 < size
        · rw [ih (by omega) room, if_neg (by omega)]
        · rw [Buffer.get_of_le _ (by omega), Buffer.get_of_le _ (by omega)]
      · rw [if_neg same, ih (by omega) inside]
        simp only [Nat.lt_succ_iff_lt_or_eq, same, or_false]

end Watched

end Ncd15.Library
