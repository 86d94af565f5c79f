import Ncd15.Xcpm.LineEditor

/-!
# Runs of the line editor

Every key keeps the cursor and the length inside the line and writes inside the buffers, but
for a Tab with several matches: it does not look whether the longer token fits.
-/

namespace Ncd15.Xcpm

open Ncd15.Library

namespace Editor

variable {e : Editor} {h : History} {directory : List (List UInt8)}

section Invariant

/-- The lengths are in range, and every write so far has been inside its buffer. -/
structure Fits (e : Editor) : Prop where
  cursor_le : e.cursor ≤ e.len
  len_le : e.len ≤ 79
  line : e.line.inside = true
  saved : e.saved.inside = true
  kill : e.kill.inside = true
  locals : e.localsInside = true
  killLen_le : e.killLen ≤ 79
  savedLen_le : e.savedLen ≤ 79
  savedCursor_le : e.savedCursor ≤ e.savedLen

/-- In addition the line ends with a NUL. -/
structure Sound (e : Editor) : Prop extends Fits e where
  ends : e.char e.len = 0

theorem Fits.withLine (fits : e.Fits) {line : Watched lineMax} (inside : line.inside = true) :
    { e with line := line }.Fits :=
  { fits with line := inside }

theorem Fits.terminate (fits : e.Fits) : e.terminate.Sound where
  toFits := fits.withLine (by simp [fits.line, Nat.lt_succ_of_le fits.len_le])
  ends := Watched.get_store _ _ (Nat.lt_succ_of_le fits.len_le)

theorem Fits.resize (fits : e.Fits) {len cursor : Nat} (cursor_le : cursor ≤ len)
    (len_le : len ≤ 79) : { e with len := len, cursor := cursor }.Fits :=
  { fits with cursor_le := cursor_le, len_le := len_le }

theorem Fits.move (fits : e.Fits) {dst src : Nat} {indices : List Nat}
    (within : ∀ i ∈ indices, dst + i < lineMax) : (e.move dst src indices).Fits :=
  fits.withLine (Watched.inside_storeAll fits.line within)

theorem Fits.keepKilled (fits : e.Fits) {count : Nat} (src : Nat) (count_le : count ≤ 79) :
    (e.keepKilled src count).Fits :=
  { fits with
    kill := by
      have copied : (e.kill.copyIn 0 ((List.range count).map fun i => e.char (src + i))).inside =
          true := Watched.inside_copyIn fits.kill (show _ ≤ 80 by simp; omega)
      simp [Editor.keepKilled, copied, Nat.lt_succ_of_le count_le]
    killLen_le := count_le }

theorem Fits.walk (fits : e.Fits) (histPos : Nat) : { e with histPos := histPos }.Fits :=
  { fits with }

/-- Moving the cursor. -/
theorem Sound.seek (sound : e.Sound) {cursor : Nat} (cursor_le : cursor ≤ e.len) :
    { e with cursor := cursor }.Sound :=
  { sound with cursor_le := cursor_le }

theorem Fits.replace (fits : e.Fits) {text : List UInt8} (short : text.length ≤ 79) :
    (e.replace text).Sound where
  toFits := { fits with
    cursor_le := le_refl _
    len_le := short
    line := by
      have copied : (e.line.copyIn 0 text).inside = true :=
        Watched.inside_copyIn fits.line (show _ ≤ 80 by omega)
      simp [Editor.replace, copied, Nat.lt_succ_of_le short] }
  ends := Watched.get_store _ _ (Nat.lt_succ_of_le short)

end Invariant

section Keys

theorem sound_start (line saved kill : Buffer lineMax) {killLen : Nat} (short : killLen ≤ 79) :
    (start line saved kill killLen).Sound where
  toFits :=
    { cursor_le := le_refl _
      len_le := Nat.zero_le _
      line := rfl
      saved := rfl
      kill := rfl
      locals := rfl
      killLen_le := short
      savedLen_le := Nat.zero_le _
      savedCursor_le := le_refl _ }
  ends := Watched.get_store _ _ (by decide)

theorem Sound.backspace (sound : e.Sound) : e.backspace.Sound := by
  have cursor_le := sound.cursor_le
  have len_le := sound.len_le
  unfold Editor.backspace
  split
  · refine Fits.terminate (Fits.resize (sound.toFits.move fun i mem => ?_) (by omega) (by omega))
    have small := List.mem_range.mp mem
    change _ < 80
    omega
  · exact sound

theorem Sound.deleteChar (sound : e.Sound) : e.deleteChar.Sound := by
  have cursor_le := sound.cursor_le
  have len_le := sound.len_le
  unfold Editor.deleteChar
  split
  · refine Fits.terminate (Fits.resize (sound.toFits.move fun i mem => ?_)
      (show e.cursor ≤ _ by omega) (by omega))
    have small := List.mem_range.mp mem
    change _ < 80
    omega
  · exact sound

theorem Sound.killToEnd (sound : e.Sound) : e.killToEnd.Sound := by
  have cursor_le := sound.cursor_le
  have len_le := sound.len_le
  unfold Editor.killToEnd
  split
  · refine Fits.terminate ?_
    exact Fits.resize (sound.toFits.keepKilled _ (by omega)) (le_refl e.cursor) (by omega)
  · exact sound

/-- What is in front of the cursor is kept as killed, and what is behind it moves there. -/
theorem Sound.cut (sound : e.Sound) {start count len : Nat} (start_le : start ≤ e.cursor)
    (count_le : count ≤ 79) (cursor_le : start ≤ len) (len_le : len ≤ 79) :
    ({ (e.keepKilled start count).move start e.cursor (List.range (e.len - e.cursor)) with
      len := len, cursor := start } : Editor).terminate.Sound := by
  have whole := sound.len_le
  refine Fits.terminate (Fits.resize (Fits.move (sound.toFits.keepKilled _ count_le)
    fun i mem => ?_) cursor_le len_le)
  have small := List.mem_range.mp mem
  have within := sound.cursor_le
  change _ < 80
  omega

theorem Sound.killToStart (sound : e.Sound) : e.killToStart.Sound := by
  have cursor_le := sound.cursor_le
  have len_le := sound.len_le
  unfold Editor.killToStart
  split
  · exact sound.cut (by omega) (by omega) (by omega) (by omega)
  · exact sound

theorem scanBack_le (p : Nat → Bool) (j : Nat) : scanBack p j ≤ j := by
  induction j with
  | zero => exact le_refl _
  | succ j ih =>
      rw [scanBack]
      split <;> omega

theorem scanOn_le (p : Nat → Bool) (left j : Nat) : j ≤ scanOn p left j ∧
    scanOn p left j ≤ j + left := by
  induction left generalizing j with
  | zero => exact ⟨le_refl _, le_refl _⟩
  | succ left ih =>
      rw [scanOn]
      split
      · have bounds := ih (j + 1)
        omega
      · omega

theorem wordStart_le : e.wordStart ≤ e.cursor :=
  (scanBack_le _ _).trans (scanBack_le _ _)

theorem wordEnd_le (cursor_le : e.cursor ≤ e.len) : e.wordEnd ≤ e.len := by
  unfold Editor.wordEnd
  have blanks := scanOn_le (fun j => isSpace (e.char j)) (e.len - e.cursor) e.cursor
  have letters := scanOn_le (fun j => !isSpace (e.char j))
    (e.len - scanOn (fun j => isSpace (e.char j)) (e.len - e.cursor) e.cursor)
    (scanOn (fun j => isSpace (e.char j)) (e.len - e.cursor) e.cursor)
  dsimp only
  omega

theorem Sound.killWord (sound : e.Sound) : e.killWord.Sound := by
  have cursor_le := sound.cursor_le
  have len_le := sound.len_le
  have start_le := wordStart_le (e := e)
  unfold Editor.killWord
  split
  · exact sound.cut (by omega) (by omega) (by omega) (by omega)
  · exact sound

theorem Sound.yank (sound : e.Sound) : e.yank.Sound := by
  have cursor_le := sound.cursor_le
  have len_le := sound.len_le
  unfold Editor.yank
  split
  · rename_i room
    have fits : e.len + e.killLen < 79 := room.2
    have moved : (e.move (e.cursor + e.killLen) e.cursor
        (List.range (e.len - e.cursor)).reverse).Fits := sound.toFits.move fun i mem => by
      have small := List.mem_range.mp (List.mem_reverse.mp mem)
      change _ < 80
      omega
    have copied : ((e.move (e.cursor + e.killLen) e.cursor
        (List.range (e.len - e.cursor)).reverse).line.copyIn e.cursor
          (e.kill.buf.slice 0 e.killLen)).inside = true :=
      Watched.inside_copyIn moved.line (show _ ≤ 80 by rw [Buffer.length_slice]; omega)
    exact Fits.terminate (Fits.resize (moved.withLine copied) (by omega) (by omega))
  · exact sound

theorem Sound.insert (sound : e.Sound) (c : UInt8) : (e.insert c).Sound := by
  have cursor_le := sound.cursor_le
  unfold Editor.insert
  split
  · rename_i room
    have fits : e.len < 79 := room
    have moved : (e.move (e.cursor + 1) e.cursor
        (List.range (e.len - e.cursor)).reverse).Fits := sound.toFits.move fun i mem => by
      have small := List.mem_range.mp (List.mem_reverse.mp mem)
      change _ < 80
      omega
    have stored : ((e.move (e.cursor + 1) e.cursor
        (List.range (e.len - e.cursor)).reverse).line.store e.cursor c).inside = true := by
      simp [moved.line, lineMax]
      omega
    exact Fits.terminate (Fits.resize (moved.withLine stored) (by omega) (by omega))
  · exact sound

theorem length_clamped_le (text : List UInt8) : (text.take (clamp text.length)).length ≤ 79 :=
  (List.length_take_le _ _).trans (clamp_le _)

theorem Sound.pick (sound : e.Sound) {text : List UInt8} (short : text.length ≤ 79) :
    (e.pick text).Sound := by
  unfold Editor.pick
  split
  · exact sound
  · exact sound.toFits.replace short

theorem Sound.searchPrefix (sound : e.Sound) (h : History) : (e.searchPrefix h).Sound := by
  unfold Editor.searchPrefix
  split
  · exact sound
  · exact sound.toFits.replace (length_clamped_le _)

theorem Fits.recallLine (fits : e.Fits) (h : History) (back : Nat) : (e.recallLine h back).Sound :=
  fits.replace (length_clamped_le _)

theorem Sound.historyUp (sound : e.Sound) (h : History) : (e.historyUp h).Sound := by
  have len_le := sound.len_le
  unfold Editor.historyUp
  split
  · refine Fits.recallLine ?_ h _
    split
    · have copied : (e.saved.copyIn 0 (e.line.buf.slice 0 e.len)).inside = true :=
        Watched.inside_copyIn sound.saved (show _ ≤ 80 by rw [Buffer.length_slice]; omega)
      exact { sound.toFits with
        saved := by simp [copied, Nat.lt_succ_of_le len_le]
        savedLen_le := len_le
        savedCursor_le := sound.cursor_le }
    · exact sound.toFits.walk _
  · exact sound

theorem Sound.historyDown (sound : e.Sound) (h : History) : (e.historyDown h).Sound := by
  have savedLen_le := sound.savedLen_le
  unfold Editor.historyDown
  split
  · split
    · have copied : (e.line.copyIn 0 (e.saved.buf.slice 0 e.savedLen)).inside = true :=
        Watched.inside_copyIn sound.line (show _ ≤ 80 by rw [Buffer.length_slice]; omega)
      have within := Nat.lt_succ_of_le savedLen_le
      exact
        { sound.toFits with
          cursor_le := sound.savedCursor_le
          len_le := savedLen_le
          line := by simp [copied, within]
          ends := Watched.get_store _ _ within }
    · exact (sound.toFits.walk _).recallLine h _
  · exact sound

end Keys

section Tab

theorem tokStart_le : e.tokStart ≤ e.cursor := scanBack_le _ _

theorem Fits.storeLocal (fits : e.Fits) {chars : List UInt8} (short : chars.length ≤ 79) :
    (e.storeLocal chars).Fits :=
  { fits with locals := by simp [Editor.storeLocal, fits.locals, Nat.lt_succ_of_le short] }

theorem Sound.storeLocal (sound : e.Sound) {chars : List UInt8} (short : chars.length ≤ 79) :
    (e.storeLocal chars).Sound :=
  { sound.toFits.storeLocal short with ends := sound.ends }

/-- A token that fits is put inside the line. -/
theorem Fits.putToken (fits : e.Fits) {text : List UInt8} {gap : Nat}
    (room : e.tokStart + text.length + gap + (e.len - e.cursor) ≤ 79) :
    (e.putToken text gap).Fits := by
  have moved : (e.move (e.tokStart + text.length + gap) e.cursor
      (List.range (e.len - e.cursor)).reverse).Fits := fits.move fun i mem => by
    have small := List.mem_range.mp (List.mem_reverse.mp mem)
    change _ < 80
    omega
  have copied : ((e.move (e.tokStart + text.length + gap) e.cursor
      (List.range (e.len - e.cursor)).reverse).line.copyIn e.tokStart text).inside = true :=
    Watched.inside_copyIn moved.line (show _ ≤ 80 by omega)
  exact Fits.resize (moved.withLine copied) (Nat.le_add_right _ _) room

theorem Sound.completeOne (sound : e.Sound) (text : List UInt8) :
    (e.completeOne text).Sound := by
  unfold Editor.completeOne
  split
  · exact sound
  · rename_i room
    have fits : e.tokStart + text.length + 1 + (e.len - e.cursor) < 80 := Nat.not_le.mp room
    have put : (e.putToken text 1).Fits := sound.toFits.putToken (by omega)
    refine Fits.terminate (put.withLine ?_)
    simp [put.line, lineMax]
    omega

/-- The matches share no more than fits in the line. -/
def Shares (e : Editor) (text : List UInt8) : Prop :=
  e.cursor - e.tokStart < text.length →
    e.tokStart + text.length + (e.len - e.cursor) ≤ 79

theorem Sound.completeSeveral (sound : e.Sound) {text : List UInt8} (shares : e.Shares text) :
    (e.completeSeveral text).Sound := by
  unfold Editor.completeSeveral
  split
  · rename_i longer
    exact (sound.toFits.putToken (shares longer)).terminate
  · exact sound

/-- Where they share more, the length leaves the line. -/
theorem shares_of_sound {text : List UInt8} (sound : (e.completeSeveral text).Sound) :
    e.Shares text := by
  intro longer
  have len_le := sound.len_le
  unfold Editor.completeSeveral at len_le
  rw [if_pos longer] at len_le
  exact len_le

/-- What is stored in `comp`. -/
def Completion.out : Completion → List UInt8
  | .none => []
  | .one out => out
  | .several out => out

theorem length_completeCommand_le (word : List UInt8) :
    (Completion.out (completeCommand word)).length ≤ 79 := by
  have short : ∀ name ∈ builtins, name.length ≤ 79 := by decide +kernel
  have first {name : List UInt8} {rest : List (List UInt8)}
      (found : (builtins.filter fun name => strieqn word.length name word) = name :: rest) :
      name.length ≤ 79 :=
    short name (List.mem_of_mem_filter (found ▸ List.mem_cons_self))
  unfold completeCommand
  split
  · exact Nat.zero_le _
  · rename_i found
    exact first found
  · rename_i found
    exact (List.length_take_le' _ _).trans (first found)

theorem length_completeFilename_le (directory : List (List UInt8)) (word : List UInt8) :
    (Completion.out (completeFilename directory word)).length ≤ 79 := by
  unfold completeFilename
  split
  · exact Nat.zero_le _
  · exact List.length_take_le _ _
  · exact List.length_take_le _ _

theorem length_completion_le : (Completion.out (e.completion directory)).length ≤ 79 := by
  unfold Editor.completion
  split
  · exact length_completeCommand_le _
  · exact length_completeFilename_le _ _

theorem length_token_le (sound : e.Sound) : e.token.length ≤ 79 := by
  have cursor_le := sound.cursor_le
  have len_le := sound.len_le
  rw [Editor.token, Buffer.length_slice]
  omega

/-- What `scanBack` has gone over. -/
theorem scanBack_holds {p : Nat → Bool} {j : Nat} (i : Nat) (after : scanBack p j ≤ i)
    (before : i < j) : p i = true := by
  induction j with
  | zero => omega
  | succ j ih =>
      rw [scanBack] at after
      split at after
      · by_cases last : i = j
        · rwa [last]
        · exact ih after (by omega)
      · omega

theorem scanOn_eq {p : Nat → Bool} {left j : Nat}
    (holds : ∀ i, j ≤ i → i < j + left → p i = true) : scanOn p left j = j + left := by
  induction left generalizing j with
  | zero => rfl
  | succ left ih =>
      rw [scanOn, if_pos (holds j (le_refl _) (by omega)),
        ih fun i after before => holds i (by omega) (by omega)]
      omega

/-- The token ends at the cursor. -/
theorem tokEnd_eq :
    scanOn (fun j => !isSpace (e.char j)) (e.cursor - e.tokStart) e.tokStart = e.cursor := by
  have start_le := tokStart_le (e := e)
  have reach : e.tokStart + (e.cursor - e.tokStart) = e.cursor := by omega
  have holds : ∀ i, e.tokStart ≤ i → i < e.tokStart + (e.cursor - e.tokStart) →
      (!isSpace (e.char i)) = true := fun i after before =>
    scanBack_holds (p := fun j => !isSpace (e.char j)) i after (reach ▸ before)
  exact (scanOn_eq holds).trans reach

/-- At a Tab with several matches, what they share fits in the line. -/
def TabFits (e : Editor) (directory : List (List UInt8)) : Prop :=
  ∀ out, e.completion directory = .several out → e.Shares (stringOf out)

theorem Sound.tab_iff (sound : e.Sound) :
    (e.tab directory).Sound ↔ e.TabFits directory := by
  have stored : (e.storeLocal e.token).Sound := sound.storeLocal (length_token_le sound)
  have short : (Completion.out (e.completion directory)).length ≤ 79 := length_completion_le
  unfold Editor.tab TabFits
  rw [if_neg (not_not.mpr tokEnd_eq)]
  dsimp only
  split
  · rename_i none
    exact iff_of_true stored (by simp [none])
  · rename_i out one
    rw [one] at short ⊢
    exact iff_of_true ((stored.storeLocal short).completeOne _) nofun
  · rename_i out several
    rw [several] at short ⊢
    refine ⟨?_, fun shares => ?_⟩
    · rintro extended out' ⟨⟩
      have shares := shares_of_sound extended
      exact shares
    · exact (stored.storeLocal short).completeSeveral (shares out rfl)

end Tab

section Runs

/-- The keys that are read next do not stand at a Tab that does not fit. -/
def Clear (e : Editor) (directory : List (List UInt8)) (input : List UInt8) : Prop :=
  ∀ rest, readKey input = some (.char 9, rest) → e.TabFits directory

/-- The states in front of the keys of a run whose Tabs fit. -/
inductive Reached (h : History) (directory : List (List UInt8)) : Editor → Prop
  | start (line saved kill : Buffer lineMax) {killLen : Nat} (short : killLen ≤ 79) :
      Reached h directory (start line saved kill killLen)
  | key {e e' : Editor} {input rest : List UInt8} (before : Reached h directory e)
      (clear : e.Clear directory input)
      (run : e.round h directory input = some (.more e', rest)) : Reached h directory e'

theorem length_isearch_le {input rest text : List UInt8} {query : List UInt8} {back : Nat}
    {found : Option (List UInt8)}
    (run : isearchLoop h query back found input = some (text, rest)) : text.length ≤ 79 := by
  induction input generalizing query back found with
  | nil => cases run
  | cons c input ih =>
      rw [isearchLoop] at run
      split at run
      · obtain ⟨rfl, -⟩ := Prod.mk.inj (Option.some.inj run)
        exact Nat.zero_le _
      split at run
      · obtain ⟨rfl, -⟩ := Prod.mk.inj (Option.some.inj run)
        exact length_clamped_le _
      split at run
      · obtain ⟨rfl, -⟩ := Prod.mk.inj (Option.some.inj run)
        exact Nat.zero_le _
      · exact ih run

theorem length_popup_le {input rest text : List UInt8}
    (run : f7Popup h input = some (text, rest)) : text.length ≤ 79 := by
  have left {rest' : List UInt8} (run : some (([] : List UInt8), rest') = some (text, rest)) :
      text.length ≤ 79 := by
    obtain ⟨rfl, -⟩ := Prod.mk.inj (Option.some.inj run)
    exact Nat.zero_le _
  unfold f7Popup at run
  split at run
  · exact left run
  split at run
  · cases run
  · exact left run
  split at run
  · exact left run
  split at run
  · exact left run
  · obtain ⟨rfl, -⟩ := Prod.mk.inj (Option.some.inj run)
    exact length_clamped_le _

/-- The state that a key leaves is sound, whether `read_line` goes on or returns. -/
def Outcome.Sound : Outcome → Prop
  | .more e => e.Sound
  | .done e result => result ≤ 79 ∧ e.char result = 0 ∧ e.line.inside = true ∧
      e.saved.inside = true ∧ e.kill.inside = true ∧ e.localsInside = true ∧ e.killLen ≤ 79

/-- A key that reads nothing more keeps the invariant, but for the Tab. -/
theorem Sound.key (sound : e.Sound) (k : Key) :
    (e.key h directory k).Sound ↔ (k = .char 9 → e.TabFits directory) := by
  have cursor_le := sound.cursor_le
  have len_le := sound.len_le
  cases k with
  | char c =>
      by_cases tab : c = 9
      · subst tab
        exact sound.tab_iff.trans ⟨fun fits _ => fits, fun fits => fits rfl⟩
      refine iff_of_true ?_ fun same => absurd (Key.char.inj same) tab
      unfold Editor.key
      dsimp only
      split
      · have ended := sound.toFits.terminate
        exact ⟨len_le, ended.ends, ended.line, ended.saved, ended.kill, ended.locals,
          ended.killLen_le⟩
      split
      · exact sound.backspace
      split
      · exact sound.seek (Nat.zero_le _)
      split
      · exact sound.seek (max_le cursor_le (le_refl _))
      split
      · exact sound.killToEnd
      split
      · exact sound.killToStart
      split
      · exact sound.yank
      split
      · exact sound.killWord
      split
      · refine ⟨Nat.zero_le _, Watched.get_store _ _ (by decide), ?_, sound.saved, sound.kill,
          sound.locals, sound.killLen_le⟩
        simp [sound.line]
      split
      · exact sound.insert c
      · exact sound
  | up => exact iff_of_true (sound.historyUp h) nofun
  | down => exact iff_of_true (sound.historyDown h) nofun
  | left => exact iff_of_true (sound.seek ((Nat.sub_le _ _).trans cursor_le)) nofun
  | right =>
      refine iff_of_true (sound.seek ?_) nofun
      split <;> omega
  | home => exact iff_of_true (sound.seek (Nat.zero_le _)) nofun
  | last => exact iff_of_true (sound.seek (max_le cursor_le (le_refl _))) nofun
  | del => exact iff_of_true sound.deleteChar nofun
  | wordLeft => exact iff_of_true (sound.seek (wordStart_le.trans cursor_le)) nofun
  | wordRight => exact iff_of_true (sound.seek (wordEnd_le cursor_le)) nofun
  | metaBackspace => exact iff_of_true sound.killWord nofun
  | f7 => exact iff_of_true sound nofun
  | f8 => exact iff_of_true (sound.searchPrefix h) nofun

/-- A round keeps the invariant exactly when its Tab fits. -/
theorem Sound.round_iff (sound : e.Sound) {input rest : List UInt8} {outcome : Outcome}
    (run : e.round h directory input = some (outcome, rest)) :
    outcome.Sound ↔ e.Clear directory input := by
  unfold Editor.round at run
  unfold Clear
  split at run
  · cases run
  · rename_i read
    obtain ⟨⟨text, rest'⟩, search, same⟩ := Option.map_eq_some_iff.mp run
    obtain ⟨rfl, -⟩ := Prod.mk.inj same
    exact iff_of_true (sound.pick (length_isearch_le search)) (by simp [read])
  · rename_i read
    obtain ⟨⟨text, rest'⟩, popup, same⟩ := Option.map_eq_some_iff.mp run
    obtain ⟨rfl, -⟩ := Prod.mk.inj same
    exact iff_of_true (sound.pick (length_popup_le popup)) (by simp [read])
  · rename_i k rest' _ _ read
    obtain ⟨rfl, -⟩ := Prod.mk.inj (Option.some.inj run)
    rw [sound.key k, read]
    refine ⟨fun fits rest same => fits ?_, fun fits same => fits rest' ?_⟩
    · exact congrArg Prod.fst (Option.some.inj same)
    · rw [same]

/-- In every run whose Tabs fit, every state is sound; and the state that the next key leaves
is sound exactly when that key is not a Tab that does not fit. -/
theorem sound_of_reached (reached : Reached h directory e) :
    e.Sound ∧ ∀ input outcome rest, e.round h directory input = some (outcome, rest) →
      (outcome.Sound ↔ e.Clear directory input) := by
  have sound : e.Sound := by
    induction reached with
    | start line saved kill short => exact sound_start line saved kill short
    | key before clear run ih => exact (ih.round_iff run).mpr clear
  exact ⟨sound, fun _ _ _ run => sound.round_iff run⟩

/-- An empty history ring. -/
def noHistory : History where
  rows := fun _ => { text := [], length_lt := by decide, noNul := by decide }
  head := 0
  count := 0
  count_le := by decide

/-- The line before the first key, and a kill buffer of 76 letters and a blank. -/
def longKill : Editor :=
  start Buffer.zero Buffer.zero (Buffer.zero.blit 0 (List.replicate 76 97 ++ [32])) 77

/-- A Tab behind the letter `u`, which several commands begin with. -/
theorem sound_of_reached_tab : ((longKill.insert 117).tab []).Sound := by
  have letter : longKill.round noHistory [] [117] = some (.more (longKill.insert 117), []) := rfl
  have typed : Reached noHistory [] (longKill.insert 117) :=
    .key (.start _ _ _ (by decide)) (by rintro rest ⟨⟩) letter
  have tab : (longKill.insert 117).round noHistory [] [9] =
      some (.more ((longKill.insert 117).tab []), []) := rfl
  have shares : (longKill.insert 117).completion [] = .several [117] := by decide +kernel
  refine (sound_of_reached (.key typed (fun rest _ out several => ?_) tab)).1
  obtain rfl := Completion.several.inj (several.symm.trans shares)
  intro longer
  exact absurd longer (by decide +kernel)

/-- Two files whose names share nine characters. -/
def twoFiles : List (List UInt8) := [ascii "FOOBARBATXT", ascii "FOOBARBAX  "]

/-- The kill buffer is yanked, `F` is typed, and a Tab extends it to `FOOBARBA.`: the line
has 86 characters, and writes to it have been outside. -/
theorem tab_leaves_line : ∃ e e', Reached noHistory twoFiles e ∧
    e.round noHistory twoFiles [9] = some (.more e', []) ∧ e'.len = 86 ∧
    e'.line.inside = false := by
  have yank : longKill.round noHistory twoFiles [25] = some (.more longKill.yank, []) := rfl
  have yanked : Reached noHistory twoFiles longKill.yank :=
    .key (.start _ _ _ (by decide)) (by rintro rest ⟨⟩) yank
  have letter : longKill.yank.round noHistory twoFiles [70] =
      some (.more (longKill.yank.insert 70), []) := rfl
  have typed : Reached noHistory twoFiles (longKill.yank.insert 70) :=
    .key yanked (by rintro rest ⟨⟩) letter
  refine ⟨_, _, typed, rfl, ?_, ?_⟩
  · decide +kernel
  · decide +kernel

end Runs

end Editor

end Ncd15.Xcpm
