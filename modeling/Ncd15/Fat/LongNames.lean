import Mathlib.Data.List.DropRight
import Ncd15.Fat.Enumeration

/-!
# Long names

`lfn_collect_entry` puts the pieces of a long name together, and `fat_dirnext` reports the
name with the entry behind them.  Neither starts anew at the piece that is marked as the last
one, so that pieces without an entry directly before a set may show behind its name.
-/

namespace Ncd15.Fat

open Ncd15.Library

section OutputBuffer

variable (past : Nat → UInt8) (max : Nat)

/-- The string in an output buffer of `max` bytes.  A long name that is longer than the
reassembly buffer would be copied with what lies behind it in memory. -/
def LfnBuf.output (l : LfnBuf) : List UInt8 :=
  if 0 < l.len ∧ l.len < max then
    ((List.range l.len).map fun j => if j < 256 then l.chars.get j else past j).takeWhile (· ≠ 0)
  else []

/-- What `fat_dirnext` does with the entry in front of it, for such a buffer. -/
def DirIter.entryInto (it : DirIter) : DirIter ⊕ (DirResult × DirIter) :=
  let off := it.entIdx * 32
  let first := it.buf.get off
  let attr := it.buf.get (off + 11)
  let passed := { it with entIdx := it.entIdx + 1 }
  if first = 0x00 then .inr (.error 1, it)
  else if first = 0xE5 then .inl { passed with lfn := LfnBuf.clear }
  else if attr = attrLfn then .inl { passed with lfn := it.lfn.collect it.buf off }
  else if hasAttr attr attrVolid then .inl { passed with lfn := { it.lfn with len := 0 } }
  else
    .inr (.ok { de := Dirent.ofSector it.buf off, lfn := it.lfn.output past max },
      { passed with lfn := LfnBuf.clear })

def dirRoundInto (it : DirIter) : DriverM (DirIter ⊕ (DirResult × DirIter)) := do
  if it.curLba = 0 then pure (.inr (.error (-1), it))
  else
    match ← dirLoadSector it with
    | none => pure (.inr (.error (-1), it))
    | some it =>
        if 16 ≤ it.entIdx then dirAdvance it
        else pure (it.entryInto past max)

/-- `fat_dirnext` with an output buffer of `max` bytes. -/
def fatDirnextInto (rounds : Nat) (it : DirIter) : DriverM (DirResult × DirIter) := do
  if !(← mount).valid then pure (.error (-1), it)
  else Prog.loop (dirRoundInto past max) rounds { it with lfn := LfnBuf.clear }

/-- A buffer of 256 bytes is what the callers have. -/
theorem output_256 : LfnBuf.output past 256 = LfnBuf.string := by
  funext l
  rw [LfnBuf.output, LfnBuf.string]
  by_cases inside : 0 < l.len ∧ l.len < 256
  · rw [if_pos inside, if_pos inside, Buffer.slice]
    congr 1
    refine List.map_congr_left fun j mem => ?_
    have small := List.mem_range.mp mem
    rw [if_pos (by omega), Nat.zero_add]
  · rw [if_neg inside, if_neg inside]

theorem fatDirnextInto_256 : fatDirnextInto past 256 = fatDirnext := by
  have entry : DirIter.entryInto past 256 = DirIter.entry := by
    funext it
    rw [DirIter.entryInto, output_256]
    rfl
  have round : dirRoundInto past 256 = dirRound := by
    funext it
    rw [dirRoundInto, entry]
    rfl
  funext rounds it
  rw [fatDirnextInto, round]
  rfl

end OutputBuffer

section PassedSlots

/-- A slot that `fat_dirnext` passes over. -/
def Skipped (disk : Nat → Sector) (slot : Slot) : Prop :=
  (disk slot.lba).get slot.off ≠ 0x00 ∧
    ((disk slot.lba).get slot.off = 0xE5 ∨
      hasAttr ((disk slot.lba).get (slot.off + 11)) attrVolid = true)

/-- A slot whose entry `fat_dirnext` reports. -/
def Shown (disk : Nat → Sector) (slot : Slot) : Prop :=
  (disk slot.lba).get slot.off ≠ 0x00 ∧ (disk slot.lba).get slot.off ≠ 0xE5 ∧
    hasAttr ((disk slot.lba).get (slot.off + 11)) attrVolid = false

/-- The reassembly buffer behind a slot that is passed over. -/
def LfnBuf.pass (disk : Nat → Sector) (l : LfnBuf) (slot : Slot) : LfnBuf :=
  if (disk slot.lba).get slot.off = 0xE5 then clear
  else if (disk slot.lba).get (slot.off + 11) = attrLfn then l.collect (disk slot.lba) slot.off
  else { l with len := 0 }

variable {b : BlkDev} {m : Mount} {Q : DirIter → Driver → Prop} {d : Driver} {it : DirIter}
  {rest : List Nat} {past : Nat → UInt8} {max : Nat} {slot : Slot} {ahead tail : List Slot}

theorem entryInto_skipped (skipped : Skipped d.disk { lba := it.curLba, off := it.entIdx * 32 }) :
    (it.loaded d.disk).entryInto past max = .inl { it.loaded d.disk with
      entIdx := it.entIdx + 1
      lfn := it.lfn.pass d.disk { lba := it.curLba, off := it.entIdx * 32 } } := by
  obtain ⟨used, passed⟩ := skipped
  unfold DirIter.entryInto LfnBuf.pass
  dsimp only [DirIter.loaded] at used passed ⊢
  rw [if_neg used]
  by_cases deleted : (d.disk it.curLba).get (it.entIdx * 32) = 0xE5
  · rw [if_pos deleted, if_pos deleted]
  by_cases isLfn : (d.disk it.curLba).get (it.entIdx * 32 + 11) = attrLfn
  · rw [if_neg deleted, if_pos isLfn, if_neg deleted, if_pos isLfn]
  · rw [if_neg deleted, if_neg isLfn, if_neg deleted, if_neg isLfn,
      if_pos (passed.resolve_left deleted)]

theorem entryInto_shown (shown : Shown d.disk { lba := it.curLba, off := it.entIdx * 32 }) :
    (it.loaded d.disk).entryInto past max =
      .inr (.ok {
          de := Dirent.ofSector (d.disk it.curLba) (it.entIdx * 32)
          lfn := it.lfn.output past max },
        { it.loaded d.disk with entIdx := it.entIdx + 1, lfn := LfnBuf.clear }) := by
  obtain ⟨used, kept, isEntry⟩ := shown
  unfold DirIter.entryInto
  dsimp only [DirIter.loaded] at used kept isEntry ⊢
  have notLfn : (d.disk it.curLba).get (it.entIdx * 32 + 11) ≠ attrLfn := by
    intro isLfn
    rw [isLfn] at isEntry
    exact absurd isEntry (by decide)
  rw [if_neg used, if_neg kept, if_neg notLfn, if_neg (by simp [isEntry])]

/-- The step to the next sector does not depend on the output buffer. -/
theorem dirRoundInto_last {loaded : DirIter} (load : dirLoadSector it d = some (some loaded, d))
    (behind : 16 ≤ loaded.entIdx) : dirRoundInto past max it d = dirRound it d := by
  rw [dirRoundInto, dirRound]
  split
  · rfl
  rw [Prog.bind_eq_of_run load, Prog.bind_eq_of_run load]
  dsimp only
  rw [if_pos behind, if_pos behind]

/-- The loop passes over slots, the reassembly buffer with them, and reports the entry. -/
theorem dirLoopInto_run {rounds : Nat} (follows : Follows b m Q) (q : Q it d)
    (standing : Standing d it rest) (left : it.left rest = ahead ++ slot :: tail)
    (skipped : ∀ slot ∈ ahead, Skipped d.disk slot) (shown : Shown d.disk slot)
    (enough : it.work rest < rounds) :
    ∃ it' d', Prog.loop (dirRoundInto past max) rounds it d = some ((.ok {
        de := Dirent.ofSector (d.disk slot.lba) slot.off
        lfn := (ahead.foldl (LfnBuf.pass d.disk) it.lfn).output past max }, it'), d') ∧
      it'.slot = slot ∧ Q it' d' := by
  induction rounds generalizing d it rest ahead with
  | zero => omega
  | succ rounds ih =>
      have capacity := follows.capacity_lt
      rw [← (follows.device q).1] at capacity
      by_cases more : it.entIdx < 16
      · have round : dirRoundInto past max it d =
            some ((it.loaded d.disk).entryInto past max, d) := by
          rw [dirRoundInto, if_neg (Nat.ne_of_gt standing.behind.here.1),
            Prog.bind_eq_of_run (dirLoadSector_run capacity standing)]
          dsimp only
          rw [if_neg (show ¬ 16 ≤ (it.loaded d.disk).entIdx from Nat.not_le.mpr more)]
          rfl
        have first := left.symm.trans (@DirIter.left_cons it rest more)
        have device := (follows.device q).1
        have kept (used : (d.disk it.curLba).get (it.entIdx * 32) ≠ 0x00) (lfn : LfnBuf) :
            Q { it.loaded d.disk with entIdx := it.entIdx + 1, lfn } d := by
          rw [Driver.disk, device] at used
          exact follows.samePlace (follows.passed q used) rfl rfl rfl
        cases ahead with
        | nil =>
            obtain ⟨rfl, -⟩ := List.cons.inj first
            rw [entryInto_shown shown] at round
            exact ⟨_, d, Prog.loop_inr round, rfl, kept shown.1 _⟩
        | cons passed ahead =>
            obtain ⟨rfl, rest'⟩ := List.cons.inj first
            have here := skipped _ List.mem_cons_self
            rw [entryInto_skipped here] at round
            have less : { it.loaded d.disk with
                entIdx := it.entIdx + 1
                lfn := it.lfn.pass d.disk { lba := it.curLba, off := it.entIdx * 32 } }.work rest <
                  rounds := by
              unfold DirIter.work at enough ⊢
              rw [DirIter.left_cons more, List.length_cons] at enough
              change ({ it with entIdx := it.entIdx + 1 }.left rest).length + rest.length < rounds
              omega
            obtain ⟨it', d', run, result⟩ := ih (kept here.1 _)
              (standing.loaded.passed more _) rest'.symm
              (fun slot mem => skipped slot (List.mem_cons_of_mem _ mem)) shown less
            exact ⟨it', d', (Prog.loop_inl round).trans run, result⟩
      · have last : it.entIdx = 16 := Nat.le_antisymm standing.idx (Nat.not_lt.mp more)
        have full : (sectorSlots it.curLba).drop it.entIdx = [] := by
          rw [last, List.drop_eq_nil_iff, length_sectorSlots]
        cases rest with
        | nil =>
            rw [DirIter.left, full] at left
            exact absurd left.symm (List.append_ne_nil_of_right_ne_nil _ (List.cons_ne_nil _ _))
        | cons lba rest =>
            obtain ⟨it', d₁, round, moved⟩ := dirRound_moves follows q standing last
            have less := moved.less
            have load := dirLoadSector_run capacity standing
            have same : dirRoundInto past max it d = dirRound it d := dirRoundInto_last load last.ge
            rw [← same] at round
            rw [← moved.disk] at skipped shown
            obtain ⟨it'', d', run, result⟩ :=
              ih moved.kept moved.standing (moved.left.trans left) skipped shown (by omega)
            rw [moved.disk, moved.lfn] at run
            exact ⟨it'', d', (Prog.loop_inl round).trans run, result⟩

end PassedSlots

section Pieces

variable {disk : Nat → Sector} {s : Sector} {l : LfnBuf} {off p : Nat}

/-- Where the characters of a piece begin in the name. -/
def pieceBase (s : Sector) (off : Nat) : Nat := ((s.get off).toNat % 32 - 1) * 13

/-- How long the name is at least, as the piece has it. -/
def pieceEnd (s : Sector) (off : Nat) : Nat :=
  if (s.get off).toNat % 32 = 0 then 0
  else pieceBase s off +
    if (s.get off).toNat / 64 % 2 = 1 then (LfnBuf.narrow s off).length else 13

/-- The piece has a character for this position. -/
def PieceCovers (s : Sector) (off p : Nat) : Prop :=
  (s.get off).toNat % 32 ≠ 0 ∧ p < 255 ∧ pieceBase s off ≤ p ∧
    p < pieceBase s off + (LfnBuf.narrow s off).length

instance (s : Sector) (off p : Nat) : Decidable (PieceCovers s off p) :=
  inferInstanceAs (Decidable (_ ∧ _ ∧ _ ∧ _))

theorem len_collect (l : LfnBuf) (s : Sector) (off : Nat) :
    (l.collect s off).len = max l.len (pieceEnd s off) := by
  rw [LfnBuf.collect, pieceEnd]
  by_cases unnumbered : (s.get off).toNat % 32 = 0
  · rw [if_pos unnumbered, if_pos unnumbered, Nat.max_zero]
  · rw [if_neg unnumbered, if_neg unnumbered]
    rfl

theorem get_collect (l : LfnBuf) (s : Sector) (off p : Nat) :
    (l.collect s off).chars.get p =
      if PieceCovers s off p then (LfnBuf.narrow s off).getD (p - pieceBase s off) 0
      else l.chars.get p := by
  rw [LfnBuf.collect]
  by_cases unnumbered : (s.get off).toNat % 32 = 0
  · rw [if_pos unnumbered, if_neg fun covers => covers.1 unnumbered]
  rw [if_neg unnumbered]
  change (l.chars.blit (pieceBase s off)
    ((LfnBuf.narrow s off).take (255 - pieceBase s off))).get p = _
  have length : ((LfnBuf.narrow s off).take (255 - pieceBase s off)).length =
      min (255 - pieceBase s off) (LfnBuf.narrow s off).length := List.length_take
  by_cases covers : PieceCovers s off p
  · obtain ⟨-, small, after, before⟩ := covers
    rw [if_pos ⟨unnumbered, small, after, before⟩,
      Buffer.get_blit_of_mem _ after (by omega) (by omega)]
    rw [List.getD_eq_getElem?_getD, List.getD_eq_getElem?_getD, List.getElem?_take_of_lt (by omega)]
  · rw [if_neg covers]
    apply Buffer.get_blit_of_disjoint
    by_contra inside
    exact covers ⟨unnumbered, by omega, by omega, by omega⟩

/-- No character of a piece is the terminator. -/
theorem narrow_ne_zero {ch : UInt8} (mem : ch ∈ LfnBuf.narrow s off) : ch ≠ 0 := by
  obtain ⟨code, inside, rfl⟩ := List.mem_map.mp mem
  have passed := List.mem_takeWhile_imp inside
  simp only [decide_eq_true_eq] at passed
  split
  · rename_i small
    intro zero
    have value : code % 256 = 0 := by simpa using congrArg UInt8.toNat zero
    omega
  · decide

theorem get_collect_ne_zero (covers : PieceCovers s off p) : (l.collect s off).chars.get p ≠ 0 := by
  rw [get_collect, if_pos covers]
  obtain ⟨-, -, after, before⟩ := covers
  have inside : p - pieceBase s off < (LfnBuf.narrow s off).length := by omega
  rw [List.getD_eq_getElem _ _ inside]
  exact narrow_ne_zero (List.getElem_mem inside)

end Pieces

section LoosePieces

variable {disk : Nat → Sector} {slots : List Slot}

/-- The slot holds a piece of a long name. -/
def HoldsPiece (disk : Nat → Sector) (slot : Slot) : Prop :=
  (disk slot.lba).get slot.off ≠ 0xE5 ∧ (disk slot.lba).get (slot.off + 11) = attrLfn

instance (disk : Nat → Sector) (slot : Slot) : Decidable (HoldsPiece disk slot) :=
  inferInstanceAs (Decidable (_ ∧ _))

/-- The pieces of long names at the end of the slots, with nothing behind them. -/
def piecesAtEnd (disk : Nat → Sector) (slots : List Slot) : List Slot :=
  slots.rtakeWhile fun slot => HoldsPiece disk slot

/-- The pieces behind the last deleted entry, also those before a volume label. -/
def piecesSinceDeleted (disk : Nat → Sector) (slots : List Slot) : List Slot :=
  (slots.rtakeWhile fun slot => (disk slot.lba).get slot.off ≠ 0xE5).filter fun slot =>
    HoldsPiece disk slot

/-- The length is that of the pieces at the end. -/
theorem len_passed_le_iff (disk : Nat → Sector) (slots : List Slot) (n : Nat) :
    (slots.foldl (LfnBuf.pass disk) LfnBuf.clear).len ≤ n ↔
      ∀ slot ∈ piecesAtEnd disk slots, pieceEnd (disk slot.lba) slot.off ≤ n := by
  induction slots using List.reverseRecOn with
  | nil => simp [piecesAtEnd, LfnBuf.clear]
  | append_singleton slots slot ih =>
      rw [List.foldl_concat, piecesAtEnd, List.rtakeWhile_concat]
      by_cases piece : HoldsPiece disk slot
      · rw [LfnBuf.pass, if_neg piece.1, if_pos piece.2, len_collect, max_le_iff, ih,
          if_pos (decide_eq_true piece)]
        simp [piecesAtEnd, or_imp, forall_and]
      · rw [if_neg (by simpa using piece), LfnBuf.pass]
        split
        · simp [LfnBuf.clear]
        · rename_i kept
          rw [if_neg fun isLfn => piece ⟨kept, isLfn⟩]
          simp

/-- A position is empty when no piece since the last deleted entry has a character for it. -/
theorem get_passed_eq_zero_iff (p : Nat) :
    (slots.foldl (LfnBuf.pass disk) LfnBuf.clear).chars.get p = 0 ↔
      ∀ slot ∈ piecesSinceDeleted disk slots, ¬ PieceCovers (disk slot.lba) slot.off p := by
  induction slots using List.reverseRecOn with
  | nil => simp [piecesSinceDeleted, LfnBuf.clear, Buffer.zero, Buffer.get]
  | append_singleton slots slot ih =>
      rw [List.foldl_concat, piecesSinceDeleted, List.rtakeWhile_concat, LfnBuf.pass]
      by_cases deleted : (disk slot.lba).get slot.off = 0xE5
      · rw [if_pos deleted, if_neg (by simp [deleted])]
        simp [LfnBuf.clear, Buffer.zero, Buffer.get]
      rw [if_neg deleted, if_pos (decide_eq_true deleted), List.filter_append]
      by_cases isLfn : (disk slot.lba).get (slot.off + 11) = attrLfn
      · rw [if_pos isLfn, List.filter_cons_of_pos (by simp [HoldsPiece, deleted, isLfn])]
        by_cases covers : PieceCovers (disk slot.lba) slot.off p
        · have filled := get_collect_ne_zero
            (l := slots.foldl (LfnBuf.pass disk) LfnBuf.clear) covers
          simp [filled, covers]
        · rw [get_collect, if_neg covers, ih, piecesSinceDeleted]
          simp [or_imp, forall_and, covers]
      · rw [if_neg isLfn, List.filter_cons_of_neg (by simp [HoldsPiece, isLfn])]
        simpa [piecesSinceDeleted] using ih

end LoosePieces

section EntrySets

variable {disk : Nat → Sector} {name : List UInt8} {slots : List Slot}

/-- The 16-bit character that an entry set stores at a position. -/
def nameChar (name : List UInt8) (p : Nat) : Nat :=
  if p < name.length then (name.getD p 0).toNat else if p = name.length then 0 else 0xFFFF

/-- How many pieces a name has. -/
def pieceCount (name : List UInt8) : Nat := (name.length + 12) / 13

/-- The slot holds the piece of the name with this number; the last piece is marked. -/
structure NamePiece (disk : Nat → Sector) (name : List UInt8) (k : Nat) (slot : Slot) : Prop where
  number : (disk slot.lba).get slot.off =
    UInt8.ofNat (if k = pieceCount name then k + 0x40 else k)
  attr : (disk slot.lba).get (slot.off + 11) = attrLfn
  chars : ∀ j < 13, (disk slot.lba).loadLe (slot.off + LfnBuf.offsets.getD j 0) 2 =
    nameChar name ((k - 1) * 13 + j)

/-- The pieces from this number down to the first one. -/
def NamePieces (disk : Nat → Sector) (name : List UInt8) : Nat → List Slot → Prop
  | 0, [] => True
  | k + 1, slot :: slots => NamePiece disk name (k + 1) slot ∧ NamePieces disk name k slots
  | _, _ => False

/-- A well formed set for the name. -/
def NameSet (disk : Nat → Sector) (name : List UInt8) (slots : List Slot) : Prop :=
  NamePieces disk name (pieceCount name) slots

/-- The names that sets are stored for here: ASCII of 1 to 255 characters. -/
structure IsLongName (name : List UInt8) : Prop where
  positive : 0 < name.length
  short : name.length ≤ 255
  ascii : ∀ ch ∈ name, ch ≠ 0 ∧ ch < 0x80

theorem nameChar_drop (name : List UInt8) {base : Nat} (inside : base ≤ name.length) (j : Nat) :
    nameChar name (base + j) = nameChar (name.drop base) j := by
  unfold nameChar
  rw [List.length_drop, List.getD_eq_getElem?_getD, List.getD_eq_getElem?_getD,
    List.getElem?_drop]
  have before : base + j < name.length ↔ j < name.length - base := by omega
  have last : base + j = name.length ↔ j = name.length - base := by omega
  simp only [before, last]

/-- The characters of a piece end with the name. -/
theorem takeWhile_nameChar (ascii : ∀ ch ∈ name, ch ≠ 0 ∧ ch < 0x80) (count : Nat) :
    ((List.range count).map (nameChar name)).takeWhile (fun ch => ch ≠ 0 ∧ ch ≠ 0xFFFF) =
      (name.take count).map UInt8.toNat := by
  induction count generalizing name with
  | zero => rfl
  | succ count ih =>
      rw [List.range_succ_eq_map, List.map_cons, List.map_map]
      cases name with
      | nil => rfl
      | cons ch name =>
          obtain ⟨nonzero, -⟩ := ascii ch List.mem_cons_self
          have first : nameChar (ch :: name) 0 = ch.toNat := rfl
          have rest : nameChar (ch :: name) ∘ Nat.succ = nameChar name := by
            funext j
            simp [nameChar]
          have passes : ch.toNat ≠ 0 ∧ ch.toNat ≠ 0xFFFF := by
            refine ⟨fun zero => nonzero (UInt8.toNat_inj.mp zero), ?_⟩
            have := ch.toNat_lt
            omega
          rw [first, rest, List.takeWhile_cons_of_pos (by simpa using passes),
            ih fun ch mem => ascii ch (List.mem_cons_of_mem _ mem)]
          rfl

theorem narrow_namePiece (ascii : ∀ ch ∈ name, ch ≠ 0 ∧ ch < 0x80) {k : Nat} {slot : Slot}
    (inside : (k - 1) * 13 ≤ name.length) (piece : NamePiece disk name k slot) :
    LfnBuf.narrow (disk slot.lba) slot.off = (name.drop ((k - 1) * 13)).take 13 := by
  have codes : (LfnBuf.offsets.map fun pos => (disk slot.lba).loadLe (slot.off + pos) 2) =
      (List.range 13).map (nameChar (name.drop ((k - 1) * 13))) := by
    have positions : LfnBuf.offsets = (List.range 13).map (LfnBuf.offsets.getD · 0) := rfl
    rw [positions, List.map_map]
    refine List.map_congr_left fun j mem => ?_
    rw [← nameChar_drop name inside]
    exact piece.chars j (List.mem_range.mp mem)
  have ascii' : ∀ ch ∈ name.drop ((k - 1) * 13), ch ≠ 0 ∧ ch < 0x80 :=
    fun ch mem => ascii ch (List.mem_of_mem_drop mem)
  rw [LfnBuf.narrow, codes, takeWhile_nameChar ascii', List.map_map]
  refine (List.map_congr_left fun ch mem => ?_).trans (List.map_id _)
  have small := (ascii' ch (List.mem_of_mem_take mem)).2
  rw [Function.comp_apply, if_pos (show ch.toNat < 0x80 from UInt8.lt_iff_toNat_lt.mp small),
    UInt8.ofNat_toNat]
  rfl

/-- What the driver sees of a piece of the name. -/
structure NamePiece.Read (disk : Nat → Sector) (name : List UInt8) (k : Nat) (slot : Slot) :
    Prop where
  kept : (disk slot.lba).get slot.off ≠ 0xE5
  stop : pieceEnd (disk slot.lba) slot.off = if k = pieceCount name then name.length else k * 13
  covers : ∀ p, PieceCovers (disk slot.lba) slot.off p ↔ (k - 1) * 13 ≤ p ∧ p < min (k * 13) name.length
  chars : ∀ p, PieceCovers (disk slot.lba) slot.off p →
    (LfnBuf.narrow (disk slot.lba) slot.off).getD (p - pieceBase (disk slot.lba) slot.off) 0 =
      name.getD p 0

theorem NamePiece.read (isName : IsLongName name) {k : Nat} {slot : Slot} (positive : 0 < k)
    (le : k ≤ pieceCount name) (piece : NamePiece disk name k slot) :
    NamePiece.Read disk name k slot := by
  have short := isName.short
  have some := isName.positive
  have count : pieceCount name * 13 ≤ name.length + 12 ∧ name.length ≤ pieceCount name * 13 := by
    unfold pieceCount
    omega
  have narrow := narrow_namePiece isName.ascii (by omega) piece
  have length : (LfnBuf.narrow (disk slot.lba) slot.off).length =
      min 13 (name.length - (k - 1) * 13) := by
    rw [narrow, List.length_take, List.length_drop]
  have number : ((disk slot.lba).get slot.off).toNat =
      if k = pieceCount name then k + 0x40 else k := by
    rw [piece.number, UInt8.toNat_ofNat']
    split <;> omega
  have seq : ((disk slot.lba).get slot.off).toNat % 32 = k := by
    rw [number]
    split <;> omega
  have base : pieceBase (disk slot.lba) slot.off = (k - 1) * 13 := by rw [pieceBase, seq]
  refine ⟨fun deleted => ?_, ?_, fun p => ?_, fun p covers => ?_⟩
  · rw [deleted] at number
    split at number <;> simp at number <;> omega
  · rw [pieceEnd, seq, if_neg (Nat.ne_of_gt positive), base, length, number]
    by_cases last : k = pieceCount name
    · rw [if_pos last, if_pos last, if_pos (by omega)]
      omega
    · rw [if_neg last, if_neg last, if_neg (by omega)]
      omega
  · rw [PieceCovers, seq, base, length]
    omega
  · obtain ⟨-, -, after, before⟩ := covers
    rw [base] at after before ⊢
    rw [length] at before
    rw [narrow, List.getD_eq_getElem?_getD, List.getD_eq_getElem?_getD,
      List.getElem?_take_of_lt (by omega), List.getElem?_drop, Nat.add_sub_cancel' after]

/-- The pieces from the given number down write the characters up to its end, and leave the
ones behind as they are. -/
theorem foldl_namePieces (isName : IsLongName name) {k : Nat} (le : k ≤ pieceCount name)
    (pieces : NamePieces disk name k slots) (l : LfnBuf) :
    (slots.foldl (LfnBuf.pass disk) l).len =
        max l.len (if k = pieceCount name then name.length else k * 13) ∧
      ∀ p, (slots.foldl (LfnBuf.pass disk) l).chars.get p =
        if p < min (k * 13) name.length then name.getD p 0 else l.chars.get p := by
  have some := isName.positive
  have count : pieceCount name * 13 ≤ name.length + 12 ∧ name.length ≤ pieceCount name * 13 := by
    unfold pieceCount
    omega
  induction k generalizing slots l with
  | zero =>
      cases slots with
      | nil =>
          refine ⟨?_, fun p => by simp⟩
          rw [if_neg (by omega)]
          simp
      | cons slot slots => exact pieces.elim
  | succ k ih =>
      cases slots with
      | nil => exact pieces.elim
      | cons slot slots =>
          obtain ⟨piece, pieces⟩ := pieces
          have read := piece.read isName (Nat.succ_pos k) le
          have pass : l.pass disk slot = l.collect (disk slot.lba) slot.off := by
            rw [LfnBuf.pass, if_neg read.kept, if_pos piece.attr]
          obtain ⟨len, chars⟩ := ih (by omega) pieces (l.pass disk slot)
          rw [List.foldl_cons]
          refine ⟨?_, fun p => ?_⟩
          · rw [len, pass, len_collect, read.stop, if_neg (show ¬ k = pieceCount name by omega)]
            split <;> omega
          · rw [chars, pass, get_collect]
            by_cases below : p < min (k * 13) name.length
            · rw [if_pos below, if_pos (by omega)]
            rw [if_neg below]
            by_cases covers : PieceCovers (disk slot.lba) slot.off p
            · rw [if_pos covers, read.chars p covers, if_pos ((read.covers p).mp covers).2]
            · rw [if_neg covers,
                if_neg fun inside => covers ((read.covers p).mpr ⟨by omega, inside⟩)]

end EntrySets

section Law

variable {past : Nat → UInt8} {max : Nat} {name : List UInt8} {l : LfnBuf}

/-- The name is in the output buffer exactly when the length fits and the characters end
there. -/
theorem output_eq_iff (isName : IsLongName name)
    (chars : ∀ p < name.length, l.chars.get p = name.getD p 0)
    (len : name.length ≤ l.len) :
    l.output past max = name ↔
      l.len < max ∧ (l.len ≤ name.length ∨ l.chars.get name.length = 0) := by
  have positive := isName.positive
  have short := isName.short
  rw [LfnBuf.output]
  by_cases fits : l.len < max
  · obtain ⟨more, total⟩ := Nat.exists_eq_add_of_le len
    have front : (List.range name.length).map
        (fun j => if j < 256 then l.chars.get j else past j) = name := by
      refine List.ext_getElem (by simp) fun j inside inside' => ?_
      rw [List.getElem_map, List.getElem_range, if_pos (by omega), chars j inside',
        List.getD_eq_getElem _ _ inside']
    have passes : ∀ ch ∈ name, (decide (ch ≠ 0)) = true := fun ch mem => by
      simpa using (isName.ascii ch mem).1
    rw [if_pos ⟨by omega, fits⟩, total, List.range_add, List.map_append, front,
      List.takeWhile_append_of_pos passes]
    cases more with
    | zero =>
        rw [total] at fits
        simpa using fits
    | succ more =>
        rw [List.range_succ_eq_map]
        simp only [List.map_cons, Nat.add_zero]
        rw [if_pos (by omega), List.takeWhile_cons]
        by_cases ends : l.chars.get name.length = 0
        · rw [total] at fits
          simpa [ends] using fits
        · simp [ends]
  · rw [if_neg (by omega)]
    refine ⟨fun empty => ?_, fun both => absurd both.1 fits⟩
    rw [← empty] at positive
    exact absurd positive (Nat.lt_irrefl 0)

theorem output_eq_nil_iff :
    l.output past max = [] ↔ l.len = 0 ∨ max ≤ l.len ∨ l.chars.get 0 = 0 := by
  rw [LfnBuf.output]
  by_cases shows : 0 < l.len ∧ l.len < max
  · obtain ⟨more, length⟩ := Nat.exists_eq_add_of_lt shows.1
    rw [Nat.zero_add] at length
    rw [if_pos shows, length, List.range_succ_eq_map, List.map_cons, if_pos (by decide),
      List.takeWhile_cons]
    by_cases ends : l.chars.get 0 = 0
    · simp [ends]
    · simp [ends]
      omega
  · rw [if_neg shows]
    simp only [true_iff]
    omega

/-- No loose piece shows behind a name of this length: none asks for as much as the output
buffer has, and none asks for more than the name or none has the character behind it. -/
def Undisturbed (disk : Nat → Sector) (passed : List Slot) (length max : Nat) : Prop :=
  (∀ slot ∈ piecesAtEnd disk passed, pieceEnd (disk slot.lba) slot.off < max) ∧
    ((∀ slot ∈ piecesAtEnd disk passed, pieceEnd (disk slot.lba) slot.off ≤ length) ∨
      ∀ slot ∈ piecesSinceDeleted disk passed, ¬ PieceCovers (disk slot.lba) slot.off length)

/-- No piece in the slots shows with an entry that has no set of its own. -/
def Blank (disk : Nat → Sector) (ahead : List Slot) (max : Nat) : Prop :=
  (∀ slot ∈ piecesAtEnd disk ahead, pieceEnd (disk slot.lba) slot.off = 0) ∨
    (∃ slot ∈ piecesAtEnd disk ahead, max ≤ pieceEnd (disk slot.lba) slot.off) ∨
    ∀ slot ∈ piecesSinceDeleted disk ahead, ¬ PieceCovers (disk slot.lba) slot.off 0

theorem output_blank_iff {disk : Nat → Sector} {ahead : List Slot} (large : 256 ≤ max) :
    (ahead.foldl (LfnBuf.pass disk) LfnBuf.clear).output past max = [] ↔ Blank disk ahead max := by
  have none := len_passed_le_iff disk ahead 0
  have fits := len_passed_le_iff disk ahead (max - 1)
  rw [output_eq_nil_iff, get_passed_eq_zero_iff]
  refine or_congr (by simpa using none) (or_congr ?_ Iff.rfl)
  constructor
  · intro long
    by_contra small
    push Not at small
    have := fits.mpr fun slot mem => Nat.le_sub_one_of_lt (small slot mem)
    omega
  · rintro ⟨slot, mem, long⟩
    by_contra small
    have := fits.mp (by omega) slot mem
    omega

theorem output_nameSet_iff {disk : Nat → Sector} {passed set : List Slot} (large : 256 ≤ max)
    (isName : IsLongName name) (stored : NameSet disk name set) :
    ((passed ++ set).foldl (LfnBuf.pass disk) LfnBuf.clear).output past max = name ↔
      Undisturbed disk passed name.length max := by
  have short := isName.short
  have count : name.length ≤ pieceCount name * 13 := by
    unfold pieceCount
    omega
  obtain ⟨len, chars⟩ := foldl_namePieces isName le_rfl stored
    (passed.foldl (LfnBuf.pass disk) LfnBuf.clear)
  rw [if_pos rfl] at len
  rw [Nat.min_eq_right count] at chars
  rw [List.foldl_append, output_eq_iff isName (fun p inside => by rw [chars, if_pos inside])
    (by omega), chars, if_neg (Nat.lt_irrefl _), len, get_passed_eq_zero_iff]
  have fits := len_passed_le_iff disk passed (max - 1)
  have within := len_passed_le_iff disk passed name.length
  unfold Undisturbed
  refine and_congr ?_ (or_congr ?_ Iff.rfl)
  · rw [max_lt_iff]
    refine ⟨fun both slot mem => ?_, fun small => ⟨?_, by omega⟩⟩
    · have := fits.mp (Nat.le_sub_one_of_lt both.1) slot mem
      omega
    · have := fits.mpr fun slot mem => Nat.le_sub_one_of_lt (small slot mem)
      omega
  · rw [← within]
    omega

variable {d : Driver} {it : DirIter} {rest : List Nat} {slot : Slot} {ahead tail : List Slot}

/-- The next call of `fat_dirnext` reports the entry in the slot, with the string in the output
buffer. -/
def Driver.Reports (d : Driver) (past : Nat → UInt8) (max : Nat) (it : DirIter) (rest : List Nat)
    (slot : Slot) (text : List UInt8) : Prop :=
  ∀ rounds, it.work rest < rounds → ∃ it' d', fatDirnextInto past max rounds it d =
      some ((.ok { de := Dirent.ofSector (d.disk slot.lba) slot.off, lfn := text }, it'), d') ∧
    it'.slot = slot

/-- What is reported with an entry, behind the slots that are passed over on the way. -/
structure Driver.NamesEntry (d : Driver) (past : Nat → UInt8) (max : Nat) (it : DirIter)
    (rest : List Nat) (ahead : List Slot) (slot : Slot) : Prop where
  named : ∀ passed set name, ahead = passed ++ set → IsLongName name → NameSet d.disk name set →
    (d.Reports past max it rest slot name ↔ Undisturbed d.disk passed name.length max)
  unnamed : piecesAtEnd d.disk ahead = [] → d.Reports past max it rest slot []
  blank : d.Reports past max it rest slot [] ↔ Blank d.disk ahead max

theorem reports_iff (readable : Readable d) (standing : Standing d it rest) (safe : d.Safe it)
    (left : it.left rest = ahead ++ slot :: tail) (skipped : ∀ slot ∈ ahead, Skipped d.disk slot)
    (shown : Shown d.disk slot) (text : List UInt8) :
    d.Reports past max it rest slot text ↔
      (ahead.foldl (LfnBuf.pass d.disk) LfnBuf.clear).output past max = text := by
  have cleared : Standing d { it with lfn := LfnBuf.clear } rest :=
    ⟨standing.behind, standing.idx, standing.cached⟩
  have walking : d.Walking { it with lfn := LfnBuf.clear } d := ⟨rfl, rfl, safe⟩
  have valid : ¬ (!d.m.valid) = true := by simp [readable.accepted.valid]
  have run (rounds : Nat) (enough : it.work rest < rounds) :
      ∃ it' d', fatDirnextInto past max rounds it d = some ((.ok {
          de := Dirent.ofSector (d.disk slot.lba) slot.off
          lfn := (ahead.foldl (LfnBuf.pass d.disk) LfnBuf.clear).output past max }, it'), d') ∧
        it'.slot = slot := by
    obtain ⟨it', d', run, there, -⟩ :=
      dirLoopInto_run readable.follows walking cleared left skipped shown enough
    refine ⟨it', d', ?_, there⟩
    rw [fatDirnextInto, Prog.bind_eq_of_run (mount_run d), if_neg valid, run]
  constructor
  · intro reports
    obtain ⟨it', d', called, -⟩ := reports _ (Nat.lt_succ_self _)
    obtain ⟨it'', d'', result, -⟩ := run _ (Nat.lt_succ_self _)
    rw [result] at called
    simp only [Option.some.injEq, Prod.mk.injEq, Except.ok.injEq, Found.mk.injEq] at called
    exact called.1.1.2
  · rintro rfl
    exact run

/-- `fat_dirnext` returns the name of a well formed set exactly when no loose piece disturbs
it, and the empty string for an entry exactly when no piece shows, as without any before it. -/
theorem namesEntry (readable : Readable d) (standing : Standing d it rest) (safe : d.Safe it)
    (left : it.left rest = ahead ++ slot :: tail) (skipped : ∀ slot ∈ ahead, Skipped d.disk slot)
    (shown : Shown d.disk slot) (large : 256 ≤ max) :
    d.NamesEntry past max it rest ahead slot where
  named := by
    rintro passed set name rfl isName stored
    rw [reports_iff readable standing safe left skipped shown]
    exact output_nameSet_iff large isName stored
  unnamed := by
    intro none
    rw [reports_iff readable standing safe left skipped shown, output_blank_iff large]
    exact Or.inl (by simp [none])
  blank := by
    rw [reports_iff readable standing safe left skipped shown, output_blank_iff large]

end Law

section LoosePiece

/-- The bytes of a marked first piece with one character, repeated. -/
def shortPiece (ch : UInt8) (count : Nat) : List UInt8 :=
  (0x41 :: (List.replicate count [ch, 0]).flatten ++ [0, 0] ++
    List.replicate (8 - 2 * count) 0xFF) ++ [0x0F, 0, 0] ++ List.replicate 12 0xFF ++ [0, 0] ++
    List.replicate 4 0xFF

/-- The small volume with a loose piece `aaa` before the set and the entry of the file `B`. -/
def looseVolume : Nat → Sector
  | 3 => (((Buffer.zero.blit 0 (shortPiece 97 3)).blit 32 (shortPiece 66 1)).blit 64
      (66 :: List.replicate 10 32)).blit 75 [0x20]
  | lba => smallVolume lba

/-- The driver with the volume mounted. -/
def looseDriver : Driver := { Driver.initial looseVolume 40 with m := smallMount }

theorem smallMount_root {d : Driver} (m : d.m = smallMount) :
    d.Directory d.m.diropenRoot d.m.rootLbas :=
  .root (by rw [m]; decide) (by rw [m]; decide) (by rw [m]; decide)

theorem namesEntry_loose : ∃ rest,
    looseDriver.NamesEntry (fun _ => 0) 256 smallMount.diropenRoot rest
      [{ lba := 3, off := 0 }, { lba := 3, off := 32 }] { lba := 3, off := 64 } := by
  have readable : Readable looseDriver := smallMount_readable rfl rfl
  obtain ⟨rest, standing, left, -⟩ := (smallMount_root (d := looseDriver) rfl).standing readable
  have slots : dirSlots looseDriver.m.rootLbas =
      [{ lba := 3, off := 0 }, { lba := 3, off := 32 }] ++ { lba := 3, off := 64 } ::
        (List.range' 3 13).map fun e => { lba := 3, off := e * 32 } := by
    decide
  refine ⟨rest, namesEntry readable standing (Or.inl rfl) (left.trans slots) ?_ ?_ le_rfl⟩
  · intro slot mem
    simp only [List.mem_cons, List.not_mem_nil, or_false] at mem
    rcases mem with rfl | rfl
    · exact ⟨by decide +kernel, Or.inr (by decide +kernel)⟩
    · exact ⟨by decide +kernel, Or.inr (by decide +kernel)⟩
  · exact ⟨by decide +kernel, by decide +kernel, by decide +kernel⟩

/-- The piece directly before the set shows behind the name `B`. -/
theorem loose_piece_shows :
    ∃ d, fatMount (Driver.initial looseVolume 40) = some (0, d) ∧
      (dirSlots d.m.rootLbas).take 3 =
        [{ lba := 3, off := 0 }, { lba := 3, off := 32 }, { lba := 3, off := 64 }] ∧
      NameSet d.disk [66] [{ lba := 3, off := 32 }] ∧ Shown d.disk { lba := 3, off := 64 } ∧
      ∃ found it d', fatDirnext 17 d.m.diropenRoot d = some ((.ok found, it), d') ∧
        it.slot = { lba := 3, off := 64 } ∧ found.lfn = [66, 97, 97] := by
  have run : (fatMount (Driver.initial looseVolume 40)).map (fun r =>
      ((r.1, r.2.m), r.2.disk 3)) = some ((0, smallMount), looseVolume 3) := by
    decide +kernel
  have next : (fatMount (Driver.initial looseVolume 40)).map (fun r =>
      (fatDirnext 17 smallMount.diropenRoot r.2).map fun result =>
        (result.1.1.toOption.map Found.lfn, result.1.2.slot)) =
      some (some (some [66, 97, 97], { lba := 3, off := 64 })) := by
    decide +kernel
  obtain ⟨⟨code, d⟩, run, same⟩ := Option.map_eq_some_iff.mp run
  rw [run] at next
  simp only [Prod.mk.injEq] at same
  obtain ⟨⟨rfl, m⟩, root⟩ := same
  refine ⟨d, run, by rw [m]; decide, ⟨⟨?_, ?_, ?_⟩, trivial⟩, ⟨?_, ?_, ?_⟩, ?_⟩
  · rw [root]
    decide +kernel
  · rw [root]
    decide +kernel
  · rw [root]
    decide +kernel
  · rw [root]
    decide +kernel
  · rw [root]
    decide +kernel
  · rw [root]
    decide +kernel
  · obtain ⟨⟨⟨result, it⟩, d'⟩, called, shows⟩ :=
      Option.map_eq_some_iff.mp (Option.some.inj next)
    obtain ⟨string, slot⟩ := Prod.mk.inj shows
    cases result with
    | error code => simp [Except.toOption] at string
    | ok found =>
        rw [m]
        exact ⟨found, it, d', called, slot, Option.some.inj string⟩

end LoosePiece

end Ncd15.Fat
