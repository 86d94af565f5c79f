import Ncd15.Xcpm.WindowTenants

/-!
# Runs of the command interpreter over the scratch window

One event keeps every live tenant that it does not end, provided that the sizes
fit; by induction over the run the window stores all live tenants in every state
the command interpreter reaches.
-/

namespace Ncd15.Xcpm

open Ncd15.Library

/-- The tenants and the window after a run whose events all happen where the
command interpreter lets them and have fitting sizes. -/
inductive Reached : Tenants → Window → Prop
  | start (w : Window) : Reached .empty w
  | step {t : Tenants} {w : Window} {e : CcpEvent} (earlier : Reached t w)
      (allowed : t.Allows e) (fits : t.Fits e) : Reached (t.step e) (e.onWindow w)

theorem Holds.empty (w : Window) : Holds .empty w where
  script r live := by simp [Tenants.empty] at live
  input r live := by simp [Tenants.empty] at live
  left s live := by simp [Tenants.empty] at live
  right s live := by simp [Tenants.empty] at live
  args slot mem := by simp [Tenants.empty] at mem

section Step

variable {t : Tenants} {w : Window}

theorem Holds.of_script_change {w' : Window} {script : Option Reader} (holds : Holds t w)
    (same : ∀ i, inrdBase ≤ i → w'.get i = w.get i)
    (held : ∀ r, script = some r → ReaderHolds w' submitBase r) :
    Holds { t with script := script } w' where
  script := held
  input r live := (holds.input r live).congr fun i after _ => same i after
  left s live := by
    obtain ⟨short, stored⟩ := holds.left s live
    exact ⟨short, stored.congr fun i after _ => same i (by grind)⟩
  right s live := by
    obtain ⟨short, stored⟩ := holds.right s live
    exact ⟨short, stored.congr fun i after _ => same i (by grind)⟩
  args slot mem := by
    obtain ⟨after, stored⟩ := holds.args slot mem
    exact ⟨after, stored.congr fun i later _ => same i (by grind)⟩

theorem Holds.script_of_change {w' : Window} (holds : Holds t w)
    (same : ∀ i, i < inrdBase → w'.get i = w.get i) {r : Reader}
    (live : t.script = some r) : ReaderHolds w' submitBase r := by
  have held := holds.script r live
  have fits := held.fits
  exact held.congr fun i _ before => same i (by grind)

theorem holds_submit {file : Option (List UInt8)} (holds : Holds t w)
    (fits : t.Fits (.submit file)) :
    Holds (t.step (.submit file)) (cmdSubmit w file) := by
  cases file with
  | none => exact holds
  | some bytes =>
      have short : bytes.length ≤ inrdMax := fits
      have accepted : bytes.length < maxScript := by grind
      rw [Tenants.step, if_pos accepted]
      apply holds.of_script_change
      · intro i after
        apply get_cmdSubmit w _ after
        rintro _ ⟨⟩
        exact short
      · rintro r ⟨⟩
        have whole : bytes.take maxScript = bytes := List.take_of_length_le (by omega)
        have count : min bytes.length maxScript = bytes.length := by omega
        simp only [cmdSubmit, whole, count, if_neg (Nat.not_le.mpr accepted)]
        exact readerHolds_announce w short (by decide)

theorem holds_nextLine (holds : Holds t w) :
    Holds (t.step .nextLine) (windowAfterLine w) := by
  apply holds.of_script_change
  · intro i after
    exact get_windowAfterLine w (by grind)
  · intro r' after
    obtain ⟨r, live, next⟩ := Option.bind_eq_some_iff.mp after
    have held := holds.script r live
    rw [Reader.afterLine] at next
    split at next
    · simp at next
    · rename_i unfinished
      obtain rfl := Option.some.inj next
      rw [windowAfterLine, submitNextLine_of_holds held]
      simp only [unfinished]
      have bound := held.bound
      have forward := scanScript_pos_ge r.byte (r.text.length - r.pos) r.pos []
      have inText := scanScript_pos_le r.byte (r.text.length - r.pos) r.pos []
      exact held.setPos (by decide) forward (by rw [Reader.scan]; omega)

theorem holds_pipe {before after : List UInt8} (holds : Holds t w)
    (allowed : t.Allows (.pipe before after)) :
    Holds (t.step (.pipe before after)) (storePipe w before after) := by
  obtain ⟨⟨noInput, noArgs⟩, -, -, cleanBefore, cleanAfter⟩ := allowed
  have clean {half : List UInt8} {arrow : UInt8} (noNul : 0 ∉ half) (arrowNe : arrow ≠ 0) :
      0 ∉ pipeHalf half arrow := by
    intro member
    simp only [pipeHalf, pipeTmp, List.mem_append, List.mem_cons] at member
    rcases member with (member | member) | member
    · exact noNul (List.mem_of_mem_take member)
    · simp [arrowNe.symm] at member
    · simp at member
  have cleanLeft : 0 ∉ pipeLeft before := by
    apply clean _ (by decide)
    exact fun member => cleanBefore ((List.rdropWhile_prefix _ _).mem member)
  have cleanRight : 0 ∉ pipeRight after := by
    apply clean _ (by decide)
    exact fun member => cleanAfter ((List.dropWhile_suffix _).mem member)
  have leftLength : (pipeLeft before).length < 160 := length_pipeHalf_lt _ _
  have rightLength : (pipeRight after).length < 160 := length_pipeHalf_lt _ _
  constructor
  · intro r live
    apply holds.script_of_change _ live
    intro i before
    exact get_storePipe w _ _ (by grind)
  · intro r live
    rw [show t.input = some r from live] at noInput
    simp at noInput
  · rintro s ⟨⟩
    refine ⟨leftLength, ?_⟩
    apply (StringHolds.store w (by grind) cleanLeft).congr
    intro i after before
    exact get_storeString _ (by grind)
  · rintro s ⟨⟩
    exact ⟨rightLength, StringHolds.store _ (by grind) cleanRight⟩
  · intro slot mem
    rw [show (t.step (.pipe before after)).args = t.args from rfl, noArgs] at mem
    simp at mem

theorem holds_saveArgs {argv : List (List UInt8)} (holds : Holds t w)
    (allowed : t.Allows (.saveArgs argv)) :
    Holds (t.step (.saveArgs argv)) (saveArgs w argv) := by
  obtain ⟨⟨noInput, -⟩, noLeft, clean⟩ := allowed
  constructor
  · intro r live
    apply holds.script_of_change _ live
    intro i before
    exact get_saveArgs w argv (by grind)
  · intro r live
    rw [show t.input = some r from live] at noInput
    simp at noInput
  · intro s live
    rw [show t.left = some s from live] at noLeft
    simp at noLeft
  · intro s live
    obtain ⟨short, stored⟩ := holds.right s live
    refine ⟨short, stored.congr fun i after before => get_saveArgs w argv (by grind)⟩
  · intro slot mem
    have bounds := layoutArgs_bounds 0 argv slot mem
    exact ⟨by omega, stringHolds_layoutArgs w clean slot mem⟩

theorem holds_inrdBegin {file : FileRead} (holds : Holds t w)
    (allowed : t.Allows (.inrdBegin file)) (fits : t.Fits (.inrdBegin file)) :
    Holds (t.step (.inrdBegin file)) (inrdBegin w file) := by
  obtain ⟨noInput, noLeft⟩ := allowed
  have script {r : Reader} (live : t.script = some r) :
      ReaderHolds (inrdBegin w file) submitBase r :=
    holds.script_of_change (fun i before => get_inrdBegin_of_lt w file before) live
  have same {bytes : List UInt8} (delivers : file = .failed bytes ∨ file = .read bytes) :
      (∀ s, t.right = some s →
        s.length < argvBase - rightBase ∧ StringHolds (inrdBegin w file) rightBase s) ∧
      (∀ slot ∈ t.args,
        argvBase ≤ slot.1 ∧ StringHolds (inrdBegin w file) slot.1 slot.2) := by
    have sizes : (t.right ≠ none → inrdBase + dataOffset + bytes.length ≤ rightBase) ∧
        (t.args ≠ [] → inrdBase + dataOffset + bytes.length ≤ argvBase) := by
      rcases delivers with rfl | rfl <;> exact fits
    constructor
    · intro s live
      obtain ⟨short, stored⟩ := holds.right s live
      have room := sizes.1 (by simp [live])
      exact ⟨short, stored.congr fun i after _ =>
        get_inrdBegin_of_ge w delivers (by omega)⟩
    · intro slot mem
      obtain ⟨after, stored⟩ := holds.args slot mem
      have room := sizes.2 (List.ne_nil_of_mem mem)
      exact ⟨after, stored.congr fun i later _ =>
        get_inrdBegin_of_ge w delivers (by omega)⟩
  cases file with
  | notFound => exact holds
  | failed bytes =>
      constructor
      · exact fun r live => script live
      · exact fun r live => by simp [Tenants.step, noInput] at live
      · exact fun s live => by simp [Tenants.step, noLeft] at live
      · exact (same (Or.inl rfl)).1
      · exact (same (Or.inl rfl)).2
  | read bytes =>
      constructor
      · exact fun r live => script live
      · rintro r ⟨⟩
        have count : min bytes.length inrdMax = (bytes.take inrdMax).length := by
          rw [List.length_take, Nat.min_comm]
        rw [inrdBegin, count]
        exact readerHolds_announce w (List.length_take_le _ _) (by decide)
      · exact fun s live => by simp [Tenants.step, noLeft] at live
      · exact (same (Or.inr rfl)).1
      · exact (same (Or.inr rfl)).2

theorem Holds.of_input_change {w' : Window} {input : Option Reader} (holds : Holds t w)
    (same : ∀ i, i < inrdBase ∨ inrdBase + dataOffset ≤ i → w'.get i = w.get i)
    (held : ∀ r, input = some r → ReaderHolds w' inrdBase r) :
    Holds { t with input := input } w' where
  script r live := holds.script_of_change (fun i before => same i (Or.inl before)) live
  input := held
  left s live := by
    obtain ⟨short, stored⟩ := holds.left s live
    exact ⟨short, stored.congr fun i after _ => same i (by grind)⟩
  right s live := by
    obtain ⟨short, stored⟩ := holds.right s live
    exact ⟨short, stored.congr fun i after _ => same i (by grind)⟩
  args slot mem := by
    obtain ⟨after, stored⟩ := holds.args slot mem
    exact ⟨after, stored.congr fun i later _ => same i (by grind)⟩

theorem holds_getc (holds : Holds t w) : Holds (t.step .getc) (windowAfterGetc w) := by
  apply holds.of_input_change
  · exact fun i outside => get_windowAfterGetc w outside
  · intro r' after
    obtain ⟨r, live, rfl⟩ := Option.map_eq_some_iff.mp after
    have held := holds.input r live
    rw [windowAfterGetc, redirGetc_of_holds held, Reader.afterByte]
    split
    · exact held
    · exact held.setPos (by decide) (Nat.le_succ _) (by omega)

theorem holds_inrdEnd (holds : Holds t w) : Holds (t.step .inrdEnd) (inrdEnd w) := by
  apply holds.of_input_change
  · exact fun i outside => get_inrdEnd w outside
  · rintro r ⟨⟩

theorem holds_lzssPrint {blob : List UInt8} (holds : Holds t w)
    (fits : t.Fits (.lzssPrint blob)) :
    Holds (t.step (.lzssPrint blob)) (windowAfterPrint w blob) := by
  rcases fits with noText | rfl
  · rw [windowAfterPrint, lzssDecompressStream, if_pos noText]
    exact holds
  · exact Holds.empty _

theorem holds_lzssLoad {blob : List UInt8} {outMax : Nat} (holds : Holds t w)
    (fits : t.Fits (.lzssLoad blob outMax)) :
    Holds (t.step (.lzssLoad blob outMax)) (windowAfterLoad w blob outMax) := by
  rcases fits with noText | tooLong | rfl
  · rw [windowAfterLoad, lzssDecompress, if_pos (Or.inl noText)]
    exact holds
  · rw [windowAfterLoad, lzssDecompress, if_pos (Or.inr tooLong)]
    exact holds
  · exact Holds.empty _

/-- An event that fits keeps every tenant stored. -/
theorem holds_step {e : CcpEvent} (holds : Holds t w) (allowed : t.Allows e)
    (fits : t.Fits e) : Holds (t.step e) (e.onWindow w) := by
  cases e with
  | submit file => exact holds_submit holds fits
  | nextLine => exact holds_nextLine holds
  | pipe before after => exact holds_pipe holds allowed
  | runLeft => exact { holds with left := fun s live => by simp [Tenants.step] at live }
  | runRight => exact { holds with right := fun s live => by simp [Tenants.step] at live }
  | saveArgs argv => exact holds_saveArgs holds allowed
  | endLine => exact { holds with args := fun slot mem => by simp [Tenants.step] at mem }
  | inrdBegin file => exact holds_inrdBegin holds allowed fits
  | getc => exact holds_getc holds
  | inrdEnd => exact holds_inrdEnd holds
  | lzssPrint blob => exact holds_lzssPrint holds fits
  | lzssLoad blob outMax => exact holds_lzssLoad holds fits

end Step

/-- In every state of a run whose sizes fit, the live tenants are stored
unchanged. -/
theorem holds_of_reached {t : Tenants} {w : Window} (reached : Reached t w) :
    Holds t w := by
  induction reached with
  | start w => exact Holds.empty w
  | step _ allowed fits ih => exact holds_step ih allowed fits

/-- In every state of a run whose sizes fit, each reader of the window gets what
the live tenant stored: the next line of the script, the next byte of the input,
the halves of the pipe and the saved arguments. -/
theorem tenants_read_back {t : Tenants} {w : Window} (reached : Reached t w) :
    Holds t w ∧
      (∀ r, t.script = some r → (submitNextLine w).1 = r.scan.line) ∧
      (∀ r, t.input = some r → (redirGetc w).1 =
        if r.text.length ≤ r.pos then some 0x1A else some (r.byte r.pos)) ∧
      (∀ s, t.left = some s → w.cString leftBase = s) ∧
      (∀ s, t.right = some s → w.cString rightBase = s) ∧
      (∀ slot ∈ t.args, w.cString slot.1 = slot.2) := by
  have holds := holds_of_reached reached
  refine ⟨holds, ?_, ?_, ?_, ?_, ?_⟩
  · intro r live
    rw [submitNextLine_of_holds (holds.script r live)]
  · intro r live
    rw [redirGetc_of_holds (holds.input r live)]
    split <;> rfl
  · exact fun s live => (holds.left s live).2.cString
  · exact fun s live => (holds.right s live).2.cString
  · exact fun slot mem => (holds.args slot mem).2.cString

section Examples

/-- Every event of a list satisfies a condition where it happens. -/
def Tenants.Along (t : Tenants) (condition : Tenants → CcpEvent → Prop) :
    List CcpEvent → Prop
  | [] => True
  | e :: rest => condition t e ∧ (t.step e).Along condition rest

theorem Reached.events {t : Tenants} {w : Window} {events : List CcpEvent}
    (earlier : Reached t w)
    (along : t.Along (fun t e => t.Allows e ∧ t.Fits e) events) :
    Reached (events.foldl Tenants.step t) (events.foldl CcpEvent.onWindow w) := by
  induction events generalizing t w with
  | nil => exact earlier
  | cons e rest ih =>
      obtain ⟨⟨allowed, fits⟩, later⟩ := along
      exact ih (earlier.step allowed fits) later

/-- `T < F` as the first line of a script, with more text behind it. -/
def redirectScript (rest : List UInt8) : List UInt8 := [84, 32, 60, 32, 70, 10] ++ rest

/-- The script is started, its first line saves the argument `T` and redirects
the input from a file with one byte. -/
def redirectEvents (rest : List UInt8) : List CcpEvent :=
  [.submit (some (redirectScript rest)), .nextLine, .saveArgs [[84]],
    .inrdBegin (.read [66])]

/-- The tenants and the window after these events. -/
def redirectTenants (rest : List UInt8) : Tenants :=
  (redirectEvents rest).foldl Tenants.step .empty

def redirectWindow (rest : List UInt8) : Window :=
  (redirectEvents rest).foldl CcpEvent.onWindow Buffer.zero

theorem tenants_read_back_redirect : (redirectWindow []).cString argvBase = [84] := by
  have along : Tenants.empty.Along (fun t e => t.Allows e ∧ t.Fits e)
      (redirectEvents []) := by
    simp [redirectEvents, Tenants.Along, Tenants.Allows, Tenants.Fits, Tenants.Idle,
      Tenants.step, Tenants.empty, redirectScript, maxScript, inrdMax, inrdBase, rightBase,
      argvBase, argvSafeSize, ccpLineMax, windowSize, dataOffset]
  have readBack := tenants_read_back ((Reached.start Buffer.zero).events along)
  exact readBack.2.2.2.2.2 (argvBase, [84]) (by decide +kernel)

/-- The control flow lets these events happen, and they leave the script at its
second line. -/
theorem redirectTenants_script {rest : List UInt8}
    (accepted : (redirectScript rest).length < maxScript) :
    Tenants.empty.Along Tenants.Allows (redirectEvents rest) ∧
      (redirectTenants rest).script = some ⟨redirectScript rest, 6⟩ := by
  have afterLine : Reader.afterLine ⟨redirectScript rest, 0⟩ =
      some ⟨redirectScript rest, 6⟩ := by
    simp [Reader.afterLine, Reader.scan, scanScript, Reader.byte, redirectScript,
      ccpLineMax]
  constructor
  · simp [redirectEvents, Tenants.Along, Tenants.Allows, Tenants.Idle, Tenants.step,
      Tenants.empty, accepted]
  · simp [redirectTenants, redirectEvents, Tenants.step, Tenants.empty, accepted, afterLine]

/-- A script the loader accepts loses an unread byte when its first line redirects
the input: the header of the input lies over it. -/
theorem script_overwritten :
    Tenants.empty.Along Tenants.Allows (redirectEvents (List.replicate 2100 65)) ∧
      (redirectScript (List.replicate 2100 65)).length < maxScript ∧
      (redirectTenants (List.replicate 2100 65)).script =
        some ⟨redirectScript (List.replicate 2100 65), 6⟩ ∧
      (redirectWindow (List.replicate 2100 65)).text submitBase 2032 ≠
        (redirectScript (List.replicate 2100 65)).getD 2032 0 := by
  have accepted : (redirectScript (List.replicate 2100 65)).length < maxScript := by
    decide +kernel
  obtain ⟨allowed, script⟩ := redirectTenants_script accepted
  exact ⟨allowed, accepted, script, by decide +kernel⟩

end Examples

end Ncd15.Xcpm
