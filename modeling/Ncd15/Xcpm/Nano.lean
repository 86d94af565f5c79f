import Ncd15.Library.Flat
import Ncd15.Library.ListEditor
import Ncd15.Xcpm.LineEditor

/-!
# The memory editor

`cmd_nano` edits the text that lies at an address, in place.  The length of the text is kept
beside it and found again by its terminator, which the editor never writes.
-/

namespace Ncd15.Xcpm

open Ncd15.Library

section Model

/-- `addr` and `size`. -/
structure NanoBuffer where
  addr : UInt32
  size : Nat
  capped : size ≤ 32768

/-- `if (size > 32768) size = 32768`. -/
def nanoBuffer (addr size : UInt32) : NanoBuffer where
  addr := addr
  size := if 32768 < size.toNat then 32768 else size.toNat
  capped := by
    split
    · exact Nat.le_refl _
    · exact Nat.not_lt.mp ‹_›

/-- The memory, `len` and `cur`, and whether all that was written lies in the buffer. -/
structure NanoState where
  mem : Flat
  len : Nat
  cur : Nat
  inside : Bool

/-- `buf[i]`. -/
def NanoBuffer.get (b : NanoBuffer) (m : Flat) (i : Nat) : UInt8 := m (b.addr + UInt32.ofNat i)

/-- `buf[i] = c`. -/
def NanoBuffer.store (b : NanoBuffer) (i : Nat) (c : UInt8) (s : NanoState) : NanoState :=
  { s with mem := s.mem.put (b.addr + UInt32.ofNat i) c, inside := s.inside && decide (i < b.size) }

/-- `while (len < size && buf[len]) len++`, with the places that are left. -/
def NanoBuffer.scan (b : NanoBuffer) (m : Flat) : Nat → Nat → Nat
  | 0, len => len
  | left + 1, len => if b.get m len ≠ 0 then b.scan m left (len + 1) else len

/-- `cmd_nano` up to its loop. -/
def nanoOpen (b : NanoBuffer) (m : Flat) : NanoState where
  mem := m
  len := b.scan m b.size 0
  cur := 0
  inside := true

/-- `for (i = len; i > cur; i--) buf[i] = buf[i - 1];` -/
def NanoBuffer.moveUp (b : NanoBuffer) (cur : Nat) : Nat → NanoState → NanoState
  | 0, s => s
  | i + 1, s => if cur < i + 1 then b.moveUp cur i (b.store (i + 1) (b.get s.mem i) s) else s

/-- `for (i = cur - 1; i < len - 1; i++) buf[i] = buf[i + 1];` with the rounds that are left. -/
def NanoBuffer.moveDown (b : NanoBuffer) : Nat → Nat → NanoState → NanoState
  | 0, _, s => s
  | left + 1, i, s => b.moveDown left (i + 1) (b.store i (b.get s.mem (i + 1)) s)

/-- Room is made for a character, and it is stored. -/
def NanoBuffer.insert (b : NanoBuffer) (c : UInt8) (s : NanoState) : NanoState :=
  let s := b.store s.cur c (b.moveUp s.cur s.len s)
  { s with cur := s.cur + 1, len := s.len + 1 }

/-- The character in front of the cursor goes. -/
def NanoBuffer.erase (b : NanoBuffer) (s : NanoState) : NanoState :=
  let s := b.moveDown (s.len - s.cur) (s.cur - 1) s
  { s with len := s.len - 1, cur := s.cur - 1 }

/-- A key other than Ctrl-X. -/
def nanoKey (b : NanoBuffer) (s : NanoState) : Key → NanoState
  | .char c =>
      if c = 13 ∨ c = 10 then if s.len < b.size then b.insert 10 s else s
      else if c = 8 ∨ c = 127 then
        if 0 < s.cur then b.erase s else s
      -- `size - 1` is unsigned.
      else if 32 ≤ c ∧ c < 127 ∧ s.len < (b.size + (2 ^ 32 - 1)) % 2 ^ 32 then b.insert c s
      else s
  | .left => if 0 < s.cur then { s with cur := s.cur - 1 } else s
  | .right => if s.cur < s.len then { s with cur := s.cur + 1 } else s
  | _ => s

/-- The loop of `cmd_nano`: how Ctrl-X leaves it, or none while it waits for another key. -/
def nanoLoop (b : NanoBuffer) : List Key → NanoState → Option NanoState
  | [], _ => none
  | .char 24 :: _, s => some s
  | k :: keys, s => nanoLoop b keys (nanoKey b s k)

/-- `cmd_nano` with its numbers. -/
def cmdNano (addr size : UInt32) (m : Flat) (keys : List Key) : Option NanoState :=
  nanoLoop (nanoBuffer addr size) keys (nanoOpen (nanoBuffer addr size) m)

end Model

section Law

/-- The text that is edited: the first `len` bytes. -/
def NanoBuffer.text (b : NanoBuffer) (s : NanoState) : List UInt8 := s.mem.bytesAt b.addr s.len

/-- A key that stands for itself. -/
def Printable : Key → Prop
  | .char c => 32 ≤ c ∧ c < 127
  | _ => False

/-- What a key does to a text with a cursor: newlines fill the buffer, other characters leave
one place of it. -/
def press (size : Nat) (e : ListEditor UInt8) : Key → ListEditor UInt8
  | .char c =>
      if c = 13 ∨ c = 10 then if e.length < size then e.insert 10 else e
      else if c = 8 ∨ c = 127 then e.erase
      else if 32 ≤ c ∧ c < 127 ∧ e.length + 1 < size then e.insert c
      else e
  | .left => e.left
  | .right => e.right
  | _ => e

/-- What is edited, and the keys up to Ctrl-X. -/
structure NanoSession where
  addr : UInt32
  size : UInt32
  mem : Flat
  keys : List Key
  typed : Key.char 24 ∉ keys

namespace NanoSession

variable (n : NanoSession)

def buffer : NanoBuffer := nanoBuffer n.addr n.size

/-- The editor after some keys. -/
def after (keys : List Key) : NanoState :=
  keys.foldl (nanoKey n.buffer) (nanoOpen n.buffer n.mem)

/-- The text with its cursor that it should have. -/
def model (keys : List Key) : ListEditor UInt8 :=
  keys.foldl (press n.buffer.size) (.start (n.buffer.text (nanoOpen n.buffer n.mem)))

/-- The editor writes in its buffer only and shows after each key the text it should have, and
another one that is opened afterwards shows the same text. -/
def IsListEditor : Prop :=
  (∀ before, before <+: n.keys → (n.after before).inside = true ∧
    n.buffer.text (n.after before) = (n.model before).text ∧
    (n.after before).cur = (n.model before).cursor) ∧
  ∀ rest, ∃ s, cmdNano n.addr n.size n.mem (n.keys ++ .char 24 :: rest) = some s ∧
    n.buffer.text (nanoOpen n.buffer s.mem) = (n.model n.keys).text

/-- There is a buffer for what is typed, the text was never longer than it is in the end, and
there it fills the buffer or meets a zero that was there before. -/
def Safe : Prop :=
  (n.buffer.size = 0 → ∀ k ∈ n.keys, ¬ Printable k) ∧
    (∀ before, before <+: n.keys → (n.model before).length ≤ (n.model n.keys).length) ∧
    ((n.model n.keys).length = n.buffer.size ∨
      n.buffer.get n.mem (n.model n.keys).length = 0)

end NanoSession

end Law

section Memory

variable {b : NanoBuffer} {s : NanoState} {c : UInt8} {i j cur : Nat}

theorem get_store (i_lt : i < 2 ^ 32) (j_lt : j < 2 ^ 32) :
    b.get (b.store i c s).mem j = if j = i then c else b.get s.mem j := by
  rw [NanoBuffer.get, NanoBuffer.store]
  dsimp only
  by_cases same : j = i
  · rw [if_pos same, same, Flat.put_self]
  · rw [if_neg same, Flat.put_of_ne]
    · rfl
    · intro equal
      have apart := congrArg (fun x => (x - b.addr).toNat) equal
      rw [Flat.toNat_add_sub _ j_lt, Flat.toNat_add_sub _ i_lt] at apart
      exact same apart

theorem get_moveUp (lt : i < 2 ^ 32) (j_lt : j < 2 ^ 32) :
    b.get (b.moveUp cur i s).mem j =
      if cur < j ∧ j ≤ i then b.get s.mem (j - 1) else b.get s.mem j := by
  induction i generalizing s with
  | zero => rw [NanoBuffer.moveUp, if_neg (by omega)]
  | succ i ih =>
      rw [NanoBuffer.moveUp]
      by_cases more : cur < i + 1
      · rw [if_pos more, ih (by omega), get_store lt (by omega : j - 1 < 2 ^ 32),
          get_store lt j_lt]
        by_cases last : j = i + 1
        · subst last
          rw [if_neg (by omega), if_pos rfl, if_pos ⟨more, Nat.le_refl _⟩, Nat.add_sub_cancel]
        · by_cases moved : cur < j ∧ j ≤ i
          · rw [if_pos moved, if_neg (by omega), if_pos ⟨moved.1, by omega⟩]
          · rw [if_neg moved, if_neg last, if_neg (by omega)]
      · rw [if_neg more, if_neg (by omega)]

theorem moveUp_frame (cur i : Nat) (s : NanoState) :
    (b.moveUp cur i s).len = s.len ∧ (b.moveUp cur i s).cur = s.cur ∧
      (i < b.size → (b.moveUp cur i s).inside = s.inside) ∧
      (s.inside = false → (b.moveUp cur i s).inside = false) := by
  induction i generalizing s with
  | zero => exact ⟨rfl, rfl, fun _ => rfl, id⟩
  | succ i ih =>
      rw [NanoBuffer.moveUp]
      split
      · obtain ⟨len, place, kept, out⟩ := ih (b.store (i + 1) (b.get s.mem i) s)
        refine ⟨len, place, fun lt => ?_, fun no => out ?_⟩
        · rw [kept (by omega), NanoBuffer.store, decide_eq_true lt, Bool.and_true]
        · rw [NanoBuffer.store, no, Bool.false_and]
      · exact ⟨rfl, rfl, fun _ => rfl, id⟩

theorem get_moveDown {left : Nat} (lt : i + left < 2 ^ 32) (j_lt : j < 2 ^ 32) :
    b.get (b.moveDown left i s).mem j =
      if i ≤ j ∧ j < i + left then b.get s.mem (j + 1) else b.get s.mem j := by
  induction left generalizing s i with
  | zero => rw [NanoBuffer.moveDown, if_neg (by omega)]
  | succ left ih =>
      rw [NanoBuffer.moveDown, ih (by omega)]
      by_cases first : j = i
      · subst first
        rw [if_neg (by omega), get_store (by omega) j_lt, if_pos rfl,
          if_pos ⟨Nat.le_refl _, by omega⟩]
      · by_cases moved : i + 1 ≤ j ∧ j < i + 1 + left
        · rw [if_pos moved, if_pos (by omega),
            get_store (by omega) (by omega : j + 1 < 2 ^ 32), if_neg (by omega)]
        · rw [if_neg moved, if_neg (by omega), get_store (by omega) j_lt, if_neg first]

theorem moveDown_frame (left i : Nat) (s : NanoState) :
    (b.moveDown left i s).len = s.len ∧ (b.moveDown left i s).cur = s.cur ∧
      (i + left ≤ b.size → (b.moveDown left i s).inside = s.inside) ∧
      (s.inside = false → (b.moveDown left i s).inside = false) := by
  induction left generalizing s i with
  | zero => exact ⟨rfl, rfl, fun _ => rfl, id⟩
  | succ left ih =>
      obtain ⟨len, place, kept, out⟩ := ih (i + 1) (b.store i (b.get s.mem (i + 1)) s)
      rw [NanoBuffer.moveDown]
      refine ⟨len, place, fun le => ?_, fun no => out ?_⟩
      · rw [kept (by omega), NanoBuffer.store, decide_eq_true (by omega), Bool.and_true]
      · rw [NanoBuffer.store, no, Bool.false_and]

/-- The buffer behind an insertion. -/
theorem get_insert (cur_le : s.cur ≤ s.len) (lt : s.len < 2 ^ 32) (j_lt : j < 2 ^ 32) :
    b.get (b.insert c s).mem j =
      if j < s.cur then b.get s.mem j else if j = s.cur then c
        else if j ≤ s.len then b.get s.mem (j - 1) else b.get s.mem j := by
  have stored : b.get (b.insert c s).mem j =
      b.get (b.store s.cur c (b.moveUp s.cur s.len s)).mem j := rfl
  rw [stored, get_store (by omega) j_lt, get_moveUp lt j_lt]
  by_cases front : j < s.cur
  · rw [if_pos front, if_neg (by omega), if_neg (by omega)]
  · rw [if_neg front]
    by_cases here : j = s.cur
    · rw [if_pos here, if_pos here]
    · rw [if_neg here, if_neg here]
      by_cases moved : j ≤ s.len
      · rw [if_pos moved, if_pos (by omega)]
      · rw [if_neg moved, if_neg (by omega)]

/-- The invariant of an editor whose text was never longer than some number: behind it lies
what was there before, and in front of it there is no zero. -/
structure Edited (b : NanoBuffer) (m : Flat) (longest : Nat) (e : ListEditor UInt8)
    (s : NanoState) : Prop where
  inside : s.inside = true
  len : s.len = e.length
  cur : s.cur = e.cursor
  text : ∀ i < s.len, b.get s.mem i = e.text.getD i 0
  held : s.len ≤ longest
  fits : longest ≤ b.size
  nonzero : ∀ i < longest, b.get s.mem i ≠ 0
  behind : ∀ i, longest ≤ i → i < b.size → b.get s.mem i = b.get m i

variable {m : Flat} {longest : Nat} {e : ListEditor UInt8}

theorem Edited.cur_le (edited : Edited b m longest e s) : s.cur ≤ s.len := by
  rw [edited.cur, edited.len]
  exact e.cursor_le_length

theorem Edited.insert (edited : Edited b m longest e s) (room : s.len < b.size) (c_ne : c ≠ 0) :
    Edited b m (max longest (s.len + 1)) (e.insert c) (b.insert c s) := by
  have cur_le := edited.cur_le
  have held := edited.held
  have fits := edited.fits
  have capped := b.capped
  have get (j : Nat) (j_lt : j < b.size) := get_insert (b := b) (c := c) cur_le
    (by omega : s.len < 2 ^ 32) (by omega : j < 2 ^ 32)
  obtain ⟨len, place, kept, -⟩ := moveUp_frame (b := b) s.cur s.len s
  have grown : (b.insert c s).len = s.len + 1 := congrArg (· + 1) len
  constructor
  case inside =>
    have stays : (b.insert c s).inside =
        ((b.moveUp s.cur s.len s).inside && decide (s.cur < b.size)) := rfl
    rw [stays, kept room, edited.inside, decide_eq_true (by omega), Bool.and_true]
  case len => rw [grown, edited.len, ListEditor.length_insert]
  case cur =>
    have moves : (b.insert c s).cur = s.cur + 1 := congrArg (· + 1) place
    rw [moves, edited.cur, ListEditor.cursor_insert]
  case text =>
    intro i small
    rw [grown] at small
    rw [get i (by omega), ListEditor.getD_insert, ← edited.cur]
    by_cases front : i < s.cur
    · rw [if_pos front, if_pos front, edited.text i (by omega)]
    · rw [if_neg front, if_neg front]
      by_cases here : i = s.cur
      · rw [if_pos here, if_pos here]
      · rw [if_neg here, if_neg here, if_pos (by omega), edited.text (i - 1) (by omega)]
  case held =>
    rw [grown]
    exact Nat.le_max_right _ _
  case fits => omega
  case nonzero =>
    intro i small
    rw [get i (by omega)]
    split
    · exact edited.nonzero i (by omega)
    · split
      · exact c_ne
      · split
        · exact edited.nonzero (i - 1) (by omega)
        · exact edited.nonzero i (by omega)
  case behind =>
    intro i past small
    rw [get i small, if_neg (by omega), if_neg (by omega), if_neg (by omega)]
    exact edited.behind i (by omega) small

theorem Edited.erase (edited : Edited b m longest e s) (pos : 0 < s.cur) :
    Edited b m longest e.erase (b.erase s) := by
  have cur_le := edited.cur_le
  have held := edited.held
  have fits := edited.fits
  have capped := b.capped
  have get (j : Nat) (j_lt : j < b.size) :
      b.get (b.erase s).mem j = if s.cur - 1 ≤ j ∧ j < s.cur - 1 + (s.len - s.cur) then
        b.get s.mem (j + 1) else b.get s.mem j :=
    get_moveDown (by omega) (by omega)
  obtain ⟨len, place, kept, -⟩ := moveDown_frame (b := b) (s.len - s.cur) (s.cur - 1) s
  have shrunk : (b.erase s).len = s.len - 1 := congrArg (· - 1) len
  have cursor : 0 < e.cursor := by
    rw [← edited.cur]
    exact pos
  constructor
  case inside => exact (kept (by omega)).trans edited.inside
  case len => rw [shrunk, edited.len, ListEditor.length_erase e cursor]
  case cur =>
    have moves : (b.erase s).cur = s.cur - 1 := congrArg (· - 1) place
    rw [moves, edited.cur, ListEditor.cursor_erase]
  case text =>
    intro i small
    rw [shrunk] at small
    rw [get i (by omega), ListEditor.getD_erase _ e cursor, ← edited.cur]
    by_cases front : i < s.cur - 1
    · rw [if_pos front, if_neg (by omega), edited.text i (by omega)]
    · rw [if_neg front, if_pos (by omega), edited.text (i + 1) (by omega)]
  case held =>
    rw [shrunk]
    omega
  case fits => exact fits
  case nonzero =>
    intro i small
    rw [get i (by omega)]
    split
    · exact edited.nonzero (i + 1) (by omega)
    · exact edited.nonzero i small
  case behind =>
    intro i past small
    rw [get i small, if_neg (by omega)]
    exact edited.behind i past small

/-- The cursor moves in the same text. -/
theorem Edited.move (edited : Edited b m longest e s) {e' : ListEditor UInt8} {cur : Nat}
    (same : e'.text = e.text) (place : cur = e'.cursor) :
    Edited b m longest e' { s with cur := cur } where
  inside := edited.inside
  len := by
    have length : e'.length = e.length := congrArg List.length same
    rw [length]
    exact edited.len
  cur := place
  text i small := by
    rw [same]
    exact edited.text i small
  held := edited.held
  fits := edited.fits
  nonzero := edited.nonzero
  behind := edited.behind

/-- One key: the text stays below its greatest length, or is a new greatest. -/
theorem Edited.key (edited : Edited b m longest e s) (k : Key)
    (room : b.size = 0 → ¬ Printable k) :
    ∃ longest', Edited b m longest' (press b.size e k) (nanoKey b s k) ∧
      longest ≤ longest' ∧ (longest' = longest ∨ longest' = (press b.size e k).length) := by
  have grows (c : UInt8) (c_ne : c ≠ 0) (more : s.len < b.size) :
      ∃ longest', Edited b m longest' (e.insert c) (b.insert c s) ∧ longest ≤ longest' ∧
        (longest' = longest ∨ longest' = (e.insert c).length) := by
    refine ⟨_, edited.insert more c_ne, Nat.le_max_left _ _, ?_⟩
    rw [ListEditor.length_insert, ← edited.len]
    omega
  have kept (e' : ListEditor UInt8) (s' : NanoState) (same : Edited b m longest e' s') :
      ∃ longest', Edited b m longest' e' s' ∧ longest ≤ longest' ∧
        (longest' = longest ∨ longest' = e'.length) :=
    ⟨longest, same, Nat.le_refl _, .inl rfl⟩
  have stays := kept e s edited
  cases k with
  | char c =>
      rw [nanoKey, press, ← edited.len]
      by_cases newline : c = 13 ∨ c = 10
      · rw [if_pos newline, if_pos newline]
        by_cases more : s.len < b.size
        · rw [if_pos more, if_pos more]
          exact grows 10 (by decide) more
        · rw [if_neg more, if_neg more]
          exact stays
      · rw [if_neg newline, if_neg newline]
        by_cases delete : c = 8 ∨ c = 127
        · rw [if_pos delete, if_pos delete]
          by_cases pos : 0 < s.cur
          · rw [if_pos pos]
            exact kept _ _ (edited.erase pos)
          · have start : e.cursor = 0 := by
              rw [← edited.cur]
              omega
            rw [if_neg pos, ListEditor.erase_of_start e start]
            exact stays
        · rw [if_neg delete, if_neg delete]
          by_cases plain : 32 ≤ c ∧ c < 127
          · have some_size : b.size ≠ 0 := fun none => room none plain
            have c_ne : c ≠ 0 := by
              rintro rfl
              exact absurd plain.1 (by decide)
            have capacity : s.len < (b.size + (2 ^ 32 - 1)) % 2 ^ 32 ↔ s.len + 1 < b.size := by
              have capped := b.capped
              omega
            simp only [plain, capacity, true_and]
            by_cases more : s.len + 1 < b.size
            · rw [if_pos more, if_pos more]
              exact grows c c_ne (by omega)
            · rw [if_neg more, if_neg more]
              exact stays
          · rw [if_neg fun all => plain ⟨all.1, all.2.1⟩,
              if_neg fun all => plain ⟨all.1, all.2.1⟩]
            exact stays
  | left =>
      rw [nanoKey, press]
      have moved := kept _ _ (edited.move e.text_left (e.cursor_left).symm)
      rw [← edited.cur] at moved
      by_cases pos : 0 < s.cur
      · rw [if_pos pos]
        exact moved
      · rw [if_neg pos]
        have same : s.cur - 1 = s.cur := by omega
        rw [same] at moved
        exact moved
  | right =>
      rw [nanoKey, press]
      by_cases more : s.cur < s.len
      · have inText : e.cursor < e.length := by
          rw [← edited.cur, ← edited.len]
          exact more
        have moved := kept _ _ (edited.move e.text_right (e.cursor_right inText).symm)
        rw [← edited.cur] at moved
        rw [if_pos more]
        exact moved
      · have last : e.length ≤ e.cursor := by
          rw [← edited.cur, ← edited.len]
          exact Nat.not_lt.mp more
        rw [if_neg more, ListEditor.right_of_end e last]
        exact stays
  | _ => exact stays

end Memory

section Runs

variable {b : NanoBuffer} {m : Flat} {s : NanoState} {e : ListEditor UInt8} {longest : Nat}

/-- The length that is found is that of the bytes up to the first zero. -/
theorem scan_spec (b : NanoBuffer) (m : Flat) (left len : Nat) :
    len ≤ b.scan m left len ∧ b.scan m left len ≤ len + left ∧
      (∀ i, len ≤ i → i < b.scan m left len → b.get m i ≠ 0) ∧
      (b.scan m left len = len + left ∨ b.get m (b.scan m left len) = 0) := by
  induction left generalizing len with
  | zero =>
      rw [NanoBuffer.scan]
      exact ⟨Nat.le_refl _, Nat.le_refl _, fun i le lt => by omega, .inl rfl⟩
  | succ left ih =>
      rw [NanoBuffer.scan]
      by_cases more : b.get m len ≠ 0
      · rw [if_pos more]
        obtain ⟨lower, upper, nonzero, stops⟩ := ih (len + 1)
        refine ⟨by omega, by omega, fun i le lt => ?_, ?_⟩
        · by_cases first : i = len
          · rw [first]
            exact more
          · exact nonzero i (by omega) lt
        · rw [Nat.add_right_comm, Nat.add_assoc] at stops
          exact stops
      · rw [if_neg more]
        exact ⟨Nat.le_refl _, by omega, fun i le lt => by omega, .inr (not_not.mp more)⟩

theorem scan_eq_iff {len : Nat} (fits : len ≤ b.size) (nonzero : ∀ i < len, b.get m i ≠ 0) :
    b.scan m b.size 0 = len ↔ len = b.size ∨ b.get m len = 0 := by
  obtain ⟨-, upper, before, stops⟩ := scan_spec b m b.size 0
  rw [Nat.zero_add] at upper stops
  constructor
  · intro found
    rw [← found]
    exact stops
  · intro ends
    rcases Nat.lt_trichotomy (b.scan m b.size 0) len with less | equal | more
    · rcases stops with full | zero
      · omega
      · exact absurd zero (nonzero _ less)
    · exact equal
    · rcases ends with full | zero
      · omega
      · exact absurd zero (before len (Nat.zero_le _) more)

theorem nanoOpen_edited (b : NanoBuffer) (m : Flat) :
    Edited b m (b.scan m b.size 0) (.start (b.text (nanoOpen b m))) (nanoOpen b m) := by
  obtain ⟨-, upper, before, -⟩ := scan_spec b m b.size 0
  have length : (b.text (nanoOpen b m)).length = b.scan m b.size 0 := Flat.length_bytesAt _ _ _
  constructor
  case inside => rfl
  case len => exact length.symm
  case cur => rfl
  case text =>
    intro i small
    exact (Flat.getD_bytesAt m b.addr small).symm
  case held => exact Nat.le_refl _
  case fits =>
    rw [Nat.zero_add] at upper
    exact upper
  case nonzero => exact fun i small => before i (Nat.zero_le i) small
  case behind => exact fun i _ _ => rfl

theorem Edited.text_eq (edited : Edited b m longest e s) : b.text s = e.text := by
  have length : (b.text s).length = e.text.length := by
    rw [NanoBuffer.text, Flat.length_bytesAt, edited.len]
    rfl
  apply List.ext_getElem length
  intro i small small'
  have small_len : i < s.len := by
    rw [NanoBuffer.text, Flat.length_bytesAt] at small
    exact small
  have same : (b.text s).getD i 0 = e.text.getD i 0 :=
    (Flat.getD_bytesAt s.mem b.addr small_len).trans (edited.text i small_len)
  rw [List.getD_eq_getElem _ _ small, List.getD_eq_getElem _ _ small'] at same
  exact same

/-- A run of keys, with the greatest length the text had on the way. -/
theorem Edited.run (edited : Edited b m longest e s) (keys : List Key)
    (room : b.size = 0 → ∀ k ∈ keys, ¬ Printable k) :
    ∃ longest', Edited b m longest' (keys.foldl (press b.size) e) (keys.foldl (nanoKey b) s) ∧
      longest ≤ longest' ∧
      (∀ before, before <+: keys → (before.foldl (press b.size) e).length ≤ longest') ∧
      (longest' = longest ∨
        ∃ before, before <+: keys ∧ longest' = (before.foldl (press b.size) e).length) := by
  have first : e.length ≤ longest := by
    rw [← edited.len]
    exact edited.held
  induction keys generalizing s e longest with
  | nil =>
      refine ⟨longest, edited, Nat.le_refl _, ?_, .inl rfl⟩
      intro before front
      rw [List.prefix_nil.mp front]
      exact first
  | cons k keys ih =>
      obtain ⟨next, edited', le, which⟩ :=
        edited.key k fun none => room none k List.mem_cons_self
      have held := edited'.held
      rw [edited'.len] at held
      obtain ⟨last, final, le', all, attained⟩ := ih edited'
        (fun none j member => room none j (List.mem_cons_of_mem k member)) held
      refine ⟨last, final, Nat.le_trans le le', ?_, ?_⟩
      · intro before front
        cases before with
        | nil => exact Nat.le_trans first (Nat.le_trans le le')
        | cons k' before =>
            obtain ⟨rfl, front'⟩ := List.cons_prefix_cons.mp front
            exact all before front'
      · rcases attained with same | ⟨before, front, length⟩
        · rcases which with same' | length
          · exact .inl (same.trans same')
          · refine .inr ⟨[k], ?_, same.trans length⟩
            exact List.cons_prefix_cons.mpr ⟨rfl, List.nil_prefix⟩
        · exact .inr ⟨k :: before, List.cons_prefix_cons.mpr ⟨rfl, front⟩, length⟩

/-- Ctrl-X leaves the editor as the keys before it left it. -/
theorem nanoLoop_run {keys : List Key} (typed : Key.char 24 ∉ keys) (rest : List Key) :
    nanoLoop b (keys ++ .char 24 :: rest) s = some (keys.foldl (nanoKey b) s) := by
  induction keys generalizing s with
  | nil => rfl
  | cons k keys ih =>
      rw [List.mem_cons, not_or] at typed
      rw [List.cons_append, nanoLoop, ih typed.2, List.foldl_cons]
      exact fun ctrlX => typed.1 ctrlX.symm

theorem insert_outside (c : UInt8) (out : s.inside = false) : (b.insert c s).inside = false := by
  have moved := (moveUp_frame (b := b) s.cur s.len s).2.2.2 out
  have stays : (b.insert c s).inside =
      ((b.moveUp s.cur s.len s).inside && decide (s.cur < b.size)) := rfl
  rw [stays, moved, Bool.false_and]

/-- What was written outside stays written. -/
theorem keys_outside (keys : List Key) (out : s.inside = false) :
    (keys.foldl (nanoKey b) s).inside = false := by
  induction keys generalizing s with
  | nil => exact out
  | cons k keys ih =>
      apply ih
      cases k with
      | char c =>
          rw [nanoKey]
          split
          · split
            · exact insert_outside 10 out
            · exact out
          · split
            · split
              · exact (moveDown_frame (b := b) (s.len - s.cur) (s.cur - 1) s).2.2.2 out
              · exact out
            · split
              · exact insert_outside c out
              · exact out
      | left =>
          rw [nanoKey]
          split <;> exact out
      | right =>
          rw [nanoKey]
          split <;> exact out
      | _ => exact out

/-- Without a buffer, keys that are no characters do nothing. -/
theorem nanoKey_idle (none : b.size = 0) (len : s.len = 0) (cur : s.cur = 0) {k : Key}
    (other : ¬ Printable k) : nanoKey b s k = s := by
  cases k with
  | char c =>
      rw [nanoKey, none, len, cur]
      split
      · rfl
      · split
        · rfl
        · rw [if_neg fun all => other ⟨all.1, all.2.1⟩]
  | left => rw [nanoKey, cur, if_neg (Nat.lt_irrefl 0)]
  | right => rw [nanoKey, cur, len, if_neg (Nat.lt_irrefl 0)]
  | _ => rfl

/-- Without a buffer, the first character is stored all the same. -/
theorem no_buffer (none : b.size = 0) (len : s.len = 0) (cur : s.cur = 0) {keys : List Key}
    {k : Key} (typed : k ∈ keys) (printable : Printable k) :
    (keys.foldl (nanoKey b) s).inside = false := by
  induction keys with
  | nil => cases typed
  | cons j keys ih =>
      rw [List.foldl_cons]
      by_cases stored : Printable j
      · apply keys_outside
        cases j with
        | char c =>
            obtain ⟨low, high⟩ := stored
            have goes : nanoKey b s (.char c) = b.insert c s := by
              have notNewline : ¬ (c = 13 ∨ c = 10) := by
                rintro (rfl | rfl) <;> exact absurd low (by decide)
              have notDelete : ¬ (c = 8 ∨ c = 127) := by
                rintro (rfl | rfl)
                · exact absurd low (by decide)
                · exact absurd high (by decide)
              rw [nanoKey, if_neg notNewline, if_neg notDelete, none, len,
                if_pos ⟨low, high, by decide⟩]
            have last : (b.insert c s).inside =
                ((b.moveUp s.cur s.len s).inside && decide (s.cur < b.size)) := rfl
            rw [goes, last, none, cur, decide_eq_false (Nat.lt_irrefl 0), Bool.and_false]
        | _ => cases stored
      · rw [nanoKey_idle none len cur stored]
        rcases List.mem_cons.mp typed with rfl | later
        · exact absurd printable stored
        · exact ih later

end Runs

section Editor

variable (n : NanoSession)

/-- Another editor finds the text again when it is at its longest and ends there as it did
before. -/
theorem NanoSession.reopened_iff {longest : Nat}
    (edited : Edited n.buffer n.mem longest (n.model n.keys) (n.after n.keys)) :
    n.buffer.text (nanoOpen n.buffer (n.after n.keys).mem) = (n.model n.keys).text ↔
      (n.model n.keys).length = longest ∧
        (longest = n.buffer.size ∨ n.buffer.get n.mem longest = 0) := by
  have held := edited.held
  have fits := edited.fits
  have found := scan_eq_iff (b := n.buffer) (m := (n.after n.keys).mem)
    (by omega : (n.after n.keys).len ≤ n.buffer.size) fun i small => edited.nonzero i (by omega)
  have same : n.buffer.text (nanoOpen n.buffer (n.after n.keys).mem) = (n.model n.keys).text ↔
      n.buffer.scan (n.after n.keys).mem n.buffer.size 0 = (n.after n.keys).len := by
    constructor
    · intro equal
      have lengths := congrArg List.length equal
      rw [NanoBuffer.text, Flat.length_bytesAt, ListEditor.length_text, ← edited.len] at lengths
      exact lengths
    · intro equal
      rw [← edited.text_eq, NanoBuffer.text, NanoBuffer.text, nanoOpen, equal]
  rw [same, found, ← edited.len]
  constructor
  · intro ends
    have whole : (n.after n.keys).len = longest := by
      rcases ends with full | zero
      · omega
      · by_contra other
        exact edited.nonzero _ (by omega) zero
    rw [whole] at ends
    refine ⟨whole, ?_⟩
    by_cases full : longest = n.buffer.size
    · exact .inl full
    · rw [← edited.behind longest (Nat.le_refl _) (by omega)]
      exact .inr (ends.resolve_left full)
  · rintro ⟨whole, ends⟩
    rw [whole]
    by_cases full : longest = n.buffer.size
    · exact .inl full
    · rw [edited.behind longest (Nat.le_refl _) (by omega)]
      exact .inr (ends.resolve_left full)

/-- A run of the first keys of a session. -/
theorem NanoSession.run_prefix (room : n.buffer.size = 0 → ∀ k ∈ n.keys, ¬ Printable k)
    {keys : List Key} (front : keys <+: n.keys) :
    ∃ longest, Edited n.buffer n.mem longest (n.model keys) (n.after keys) ∧
      (∀ before, before <+: keys → (n.model before).length ≤ longest) ∧
      ∃ before, before <+: keys ∧ longest = (n.model before).length := by
  have opened := nanoOpen_edited n.buffer n.mem
  obtain ⟨longest, edited, -, all, attained⟩ :=
    opened.run keys fun none k member => room none k (front.subset member)
  refine ⟨longest, edited, all, ?_⟩
  rcases attained with same | attained
  · refine ⟨[], List.nil_prefix, same.trans ?_⟩
    exact opened.len
  · exact attained

/-- `cmd_nano` is a list editor exactly for sessions with a buffer whose text is never longer
than in the end, where it must fill the buffer or meet a zero. -/
theorem nano_list_editor_iff : n.IsListEditor ↔ n.Safe := by
  have left (rest : List Key) :
      cmdNano n.addr n.size n.mem (n.keys ++ .char 24 :: rest) = some (n.after n.keys) :=
    nanoLoop_run n.typed rest
  constructor
  · rintro ⟨steps, exits⟩
    have room : n.buffer.size = 0 → ∀ k ∈ n.keys, ¬ Printable k := by
      intro none k typed printable
      have len : (nanoOpen n.buffer n.mem).len = 0 := by
        rw [nanoOpen, none]
        rfl
      have outside : (n.after n.keys).inside = false := no_buffer none len rfl typed printable
      have inside := (steps n.keys (List.prefix_refl _)).1
      rw [outside] at inside
      cases inside
    obtain ⟨longest, edited, all, -⟩ := n.run_prefix room (List.prefix_refl _)
    obtain ⟨s, run, again⟩ := exits []
    rw [left] at run
    cases run
    obtain ⟨whole, ends⟩ := (n.reopened_iff edited).mp again
    rw [← whole] at all ends
    exact ⟨room, all, ends⟩
  · rintro ⟨room, longest_last, ends⟩
    refine ⟨fun before front => ?_, fun rest => ⟨_, left rest, ?_⟩⟩
    · obtain ⟨longest, edited, -⟩ := n.run_prefix room front
      exact ⟨edited.inside, edited.text_eq, edited.cur⟩
    · obtain ⟨longest, edited, -, before, front, attained⟩ :=
        n.run_prefix room (List.prefix_refl _)
      have held := edited.held
      rw [edited.len] at held
      have whole : (n.model n.keys).length = longest :=
        Nat.le_antisymm held (attained ▸ longest_last before front)
      rw [whole] at ends
      exact (n.reopened_iff edited).mpr ⟨whole, ends⟩

/-- The text "ab", whose first character is deleted. -/
def deleteFirst : NanoSession where
  addr := 0
  size := 4096
  mem a := if a = 0 then 97 else if a = 1 then 98 else 0
  keys := [.right, .char 8]
  typed := by simp

/-- A character that is typed into a buffer without a place. -/
def typeNowhere : NanoSession where
  addr := 0
  size := 0
  mem _ := 0
  keys := [.char 65]
  typed := by simp

/-- The text "b" is left, and found again as "bb"; a character is stored outside. -/
theorem nano_no_list_editor : ¬ deleteFirst.IsListEditor ∧ ¬ typeNowhere.IsListEditor := by
  constructor
  · rintro ⟨-, exits⟩
    obtain ⟨s, run, again⟩ := exits []
    have left : cmdNano 0 4096 deleteFirst.mem [.right, .char 8, .char 24] =
        some (deleteFirst.after deleteFirst.keys) := rfl
    have same : s = deleteFirst.after deleteFirst.keys := Option.some.inj (run.symm.trans left)
    rw [same] at again
    exact absurd again (by decide +kernel)
  · rintro ⟨steps, -⟩
    obtain ⟨inside, -, -⟩ := steps [.char 65] (List.prefix_refl _)
    exact absurd inside (by decide +kernel)

end Editor

end Ncd15.Xcpm
