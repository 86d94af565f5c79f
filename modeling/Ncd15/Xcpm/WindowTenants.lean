import Ncd15.Xcpm.ScratchWindow

/-!
# What the users of the scratch window own

The tenants as separate variables: the script and the redirected input with their
read positions, the two halves of a pipe and the saved arguments.  Every event of
the command interpreter changes both these variables and the shared window, and
`Holds` says that the window still stores what each live tenant put there.
-/

namespace Ncd15.Xcpm

open Ncd15.Library

/-- A text that is read from a position on. -/
structure Reader where
  text : List UInt8
  pos : Nat

/-- The live tenants. -/
structure Tenants where
  script : Option Reader
  input : Option Reader
  left : Option (List UInt8)
  right : Option (List UInt8)
  args : List (Nat × List UInt8)

/-- What the command interpreter does with the window. -/
inductive CcpEvent
  /-- `submit`, with the bytes of the file. -/
  | submit (file : Option (List UInt8))
  /-- The main loop takes the next line of the script. -/
  | nextLine
  /-- `handle_pipe` found a bar in the line. -/
  | pipe (before after : List UInt8)
  /-- `run_line` on the left half reads it into its own buffers. -/
  | runLeft
  | runRight
  /-- A redirected command saves its arguments. -/
  | saveArgs (argv : List (List UInt8))
  /-- The command is finished. -/
  | endLine
  /-- BDOS 116. -/
  | inrdBegin (file : FileRead)
  /-- A console read while input is redirected. -/
  | getc
  /-- BDOS 117. -/
  | inrdEnd
  /-- BDOS 127 on a compressed text. -/
  | lzssPrint (blob : List UInt8)
  /-- BDOS 113 on a compressed program that fails to load. -/
  | lzssLoad (blob : List UInt8) (outMax : Nat)

def windowAfterLine (w : Window) : Window := (submitNextLine w).2

def windowAfterGetc (w : Window) : Window := (redirGetc w).2

/-- The windows the two decoders leave. -/
def windowAfterPrint (w : Window) (blob : List UInt8) : Window :=
  (lzssDecompressStream w blob).window

def windowAfterLoad (w : Window) (blob : List UInt8) (outMax : Nat) : Window :=
  (lzssDecompress w blob outMax).window

def CcpEvent.onWindow (w : Window) : CcpEvent → Window
  | .submit file => cmdSubmit w file
  | .nextLine => windowAfterLine w
  | .pipe before after => storePipe w before after
  | .runLeft | .runRight | .endLine => w
  | .saveArgs argv => Xcpm.saveArgs w argv
  | .inrdBegin file => Xcpm.inrdBegin w file
  | .getc => windowAfterGetc w
  | .inrdEnd => Xcpm.inrdEnd w
  | .lzssPrint blob => windowAfterPrint w blob
  | .lzssLoad blob outMax => windowAfterLoad w blob outMax

namespace Reader

/-- The unread byte at an index. -/
def byte (r : Reader) (i : Nat) : UInt8 := r.text.getD i 0

/-- The scan of `submit_next_line` over a script that nothing else can change. -/
def scan (r : Reader) : ScriptScan := scanScript r.byte (r.text.length - r.pos) r.pos []

def afterLine (r : Reader) : Option Reader :=
  if r.scan.finished then none else some { r with pos := r.scan.pos }

def afterByte (r : Reader) : Reader :=
  if r.text.length ≤ r.pos then r else { r with pos := r.pos + 1 }

end Reader

namespace Tenants

def empty : Tenants :=
  { script := none, input := none, left := none, right := none, args := [] }

/-- The effect of an event on the tenants. -/
def step (t : Tenants) : CcpEvent → Tenants
  | .submit none => t
  | .submit (some bytes) =>
      if bytes.length < maxScript then { t with script := some ⟨bytes, 0⟩ } else t
  | .nextLine => { t with script := t.script.bind Reader.afterLine }
  | .pipe before after =>
      { t with left := some (pipeLeft before), right := some (pipeRight after) }
  | .runLeft => { t with left := none }
  | .runRight => { t with right := none }
  | .saveArgs argv => { t with args := layoutArgs 0 argv }
  | .endLine => { t with args := [] }
  | .inrdBegin (.read bytes) => { t with input := some ⟨bytes.take inrdMax, 0⟩ }
  | .inrdBegin _ => t
  | .getc => { t with input := t.input.map Reader.afterByte }
  | .inrdEnd => { t with input := none }
  | .lzssPrint _ | .lzssLoad _ _ => t

/-- Between two commands nothing of the last one is live. -/
def Idle (t : Tenants) : Prop := t.input = none ∧ t.args = []

/-- Where the control flow of the command interpreter lets an event happen:
lines are fetched between commands, the arguments are saved before the input is
redirected, and the left half of a pipe is read before anything else happens. -/
def Allows (t : Tenants) : CcpEvent → Prop
  | .nextLine => t.Idle ∧ t.left = none ∧ t.right = none
  | .pipe before after =>
      t.Idle ∧ t.left = none ∧ t.right = none ∧ 0 ∉ before ∧ 0 ∉ after
  | .runLeft => t.Idle
  | .runRight => t.Idle ∧ t.left = none
  | .saveArgs argv => t.Idle ∧ t.left = none ∧ ∀ arg ∈ argv, 0 ∉ arg
  | .inrdBegin _ => t.input = none ∧ t.left = none
  | .endLine => t.input = none ∧ t.left = none
  | .submit _ | .getc | .inrdEnd | .lzssPrint _ | .lzssLoad _ _ => t.left = none

/-- The sizes for which an event leaves the other tenants alone: scripts end
before the redirection area, redirected input ends before the saved arguments and
before a pipe string still to be run, and nothing is decompressed while a tenant
is live. -/
def Fits (t : Tenants) : CcpEvent → Prop
  | .submit (some bytes) => bytes.length ≤ inrdMax
  | .inrdBegin (.failed bytes) | .inrdBegin (.read bytes) =>
      (t.right ≠ none → inrdBase + dataOffset + bytes.length ≤ rightBase) ∧
        (t.args ≠ [] → inrdBase + dataOffset + bytes.length ≤ argvBase)
  | .lzssPrint blob => lzssUncompressedSize blob = 0 ∨ t = empty
  | .lzssLoad blob outMax =>
      lzssUncompressedSize blob = 0 ∨ outMax < lzssUncompressedSize blob ∨ t = empty
  | _ => True

end Tenants

/-- The header and the unread bytes of a reader are stored at an offset. -/
structure ReaderHolds (w : Window) (base : Nat) (r : Reader) : Prop where
  fits : r.text.length ≤ inrdMax
  bound : r.pos ≤ r.text.length
  active : w.active base = 1
  pos : w.pos base = r.pos
  len : w.len base = r.text.length
  unread : ∀ i, r.pos ≤ i → i < r.text.length → w.text base i = r.byte i

/-- A NUL-terminated string is stored at an offset. -/
structure StringHolds (w : Window) (off : Nat) (s : List UInt8) : Prop where
  fits : off + s.length < windowSize
  noNul : 0 ∉ s
  stored : w.slice off (s.length + 1) = s ++ [0]

/-- The window stores every live tenant. -/
structure Holds (t : Tenants) (w : Window) : Prop where
  script : ∀ r, t.script = some r → ReaderHolds w submitBase r
  input : ∀ r, t.input = some r → ReaderHolds w inrdBase r
  left : ∀ s, t.left = some s →
    s.length < rightBase - leftBase ∧ StringHolds w leftBase s
  right : ∀ s, t.right = some s →
    s.length < argvBase - rightBase ∧ StringHolds w rightBase s
  args : ∀ slot ∈ t.args, argvBase ≤ slot.1 ∧ StringHolds w slot.1 slot.2

section Frame

variable {w w' : Window}

theorem ReaderHolds.congr {base : Nat} {r : Reader} (holds : ReaderHolds w base r)
    (same : ∀ i, base ≤ i → i < base + dataOffset + r.text.length →
      w'.get i = w.get i) :
    ReaderHolds w' base r where
  fits := holds.fits
  bound := holds.bound
  active := by
    rw [← holds.active]
    exact Buffer.loadBe_congr fun i after before => same i after (by grind)
  pos := by
    rw [← holds.pos]
    exact Buffer.loadBe_congr fun i after before => same i (by grind) (by grind)
  len := by
    rw [← holds.len]
    exact Buffer.loadBe_congr fun i after before => same i (by grind) (by grind)
  unread := by
    intro i after before
    rw [← holds.unread i after before]
    exact same _ (by grind) (by grind)

theorem StringHolds.congr {off : Nat} {s : List UInt8} (holds : StringHolds w off s)
    (same : ∀ i, off ≤ i → i ≤ off + s.length → w'.get i = w.get i) :
    StringHolds w' off s where
  fits := holds.fits
  noNul := holds.noNul
  stored := by
    rw [← holds.stored]
    exact Buffer.slice_congr fun i after before => same i after (by grind)

theorem StringHolds.store (w : Window) {off : Nat} {s : List UInt8}
    (fits : off + s.length < windowSize) (noNul : 0 ∉ s) :
    StringHolds (w.storeString off s) off s where
  fits := fits
  noNul := noNul
  stored := by
    have stored := Buffer.slice_blit_self w off (s ++ [0])
      (by simp only [List.length_append, List.length_singleton]; omega)
    simpa [Window.storeString] using stored

theorem get_storeString (w : Window) {off i : Nat} {s : List UInt8}
    (outside : i < off ∨ off + s.length < i) :
    (w.storeString off s).get i = w.get i := by
  apply Buffer.get_blit_of_disjoint
  simp only [List.length_append, List.length_singleton]
  omega

theorem StringHolds.cString {off : Nat} {s : List UInt8} (holds : StringHolds w off s) :
    w.cString off = s := by
  have fits := holds.fits
  have split : windowSize - off = s.length + 1 + (windowSize - off - (s.length + 1)) := by
    omega
  have slice : w.slice off (windowSize - off) =
      s ++ 0 :: w.slice (off + (s.length + 1)) (windowSize - off - (s.length + 1)) := by
    rw [split, Buffer.slice_add, holds.stored]
    simp
  rw [Window.cString, slice, List.takeWhile_append_of_pos]
  · simp
  · intro byte mem
    have ne : byte ≠ 0 := by
      rintro rfl
      exact holds.noNul mem
    simpa using ne

end Frame

section Header

variable (w : Window) {base i : Nat}

theorem get_setActive (v : Nat) (outside : i < base ∨ base + 4 ≤ i) :
    (w.setActive base v).get i = w.get i := by
  apply Buffer.get_blit_of_disjoint
  simpa using outside

theorem get_setPos (v : Nat) (outside : i < base + 4 ∨ base + 8 ≤ i) :
    (w.setPos base v).get i = w.get i := by
  apply Buffer.get_blit_of_disjoint
  simpa using outside

theorem get_announce (length : Nat) (outside : i < base ∨ base + 12 ≤ i) :
    (w.announce base length).get i = w.get i := by
  rw [Window.announce, get_setActive _ _ (by omega), get_setPos _ _ (by omega)]
  apply Buffer.get_blit_of_disjoint
  simp only [Buffer.length_beBytes]
  omega

theorem active_announce (length : Nat) (inside : base + dataOffset ≤ windowSize) :
    (w.announce base length).active base = 1 :=
  Buffer.loadBe_blit_self ((w.setLen base length).setPos base 0) base 4 1 (by grind)

theorem pos_announce (length : Nat) (inside : base + dataOffset ≤ windowSize) :
    (w.announce base length).pos base = 0 := by
  rw [Window.pos, Window.announce, Window.setActive, Buffer.loadBe_blit_of_disjoint _ (by simp)]
  exact Buffer.loadBe_blit_self _ (base + 4) 4 0 (by grind)

theorem len_announce {length : Nat} (inside : base + dataOffset ≤ windowSize)
    (small : length < 2 ^ 32) : (w.announce base length).len base = length := by
  rw [Window.len, Window.announce, Window.setActive, Buffer.loadBe_blit_of_disjoint _ (by simp),
    Window.setPos, Buffer.loadBe_blit_of_disjoint _ (by simp), Window.setLen,
    Buffer.loadBe_blit_self w (base + 8) 4 length (by grind)]
  exact Nat.mod_eq_of_lt small

theorem text_announce {bytes : List UInt8} (inside : base + dataOffset + bytes.length ≤ windowSize)
    (before : i < bytes.length) :
    (Window.announce (w.blit (base + dataOffset) bytes) base bytes.length).text base i =
      bytes.getD i 0 := by
  rw [Window.text, get_announce _ _ (by grind),
    Buffer.get_blit_of_mem _ (by omega) (by omega) (by grind)]
  congr 1
  omega

theorem active_setPos (v : Nat) : (w.setPos base v).active base = w.active base :=
  Buffer.loadBe_congr fun i after before => get_setPos w v (by omega)

theorem pos_setPos {v : Nat} (inside : base + dataOffset ≤ windowSize) (small : v < 2 ^ 32) :
    (w.setPos base v).pos base = v := by
  rw [Window.pos, Window.setPos, Buffer.loadBe_blit_self w (base + 4) 4 v (by grind)]
  exact Nat.mod_eq_of_lt small

theorem len_setPos (v : Nat) : (w.setPos base v).len base = w.len base :=
  Buffer.loadBe_congr fun i after before => get_setPos w v (by omega)

theorem text_setPos (v : Nat) : (w.setPos base v).text base i = w.text base i :=
  get_setPos w v (by grind)

/-- A text read in front of an announced header is held from its first byte. -/
theorem readerHolds_announce {bytes : List UInt8} (fits : bytes.length ≤ inrdMax)
    (inside : base + inrdMax + dataOffset ≤ windowSize) :
    ReaderHolds (Window.announce (w.blit (base + dataOffset) bytes) base bytes.length)
      base ⟨bytes, 0⟩ where
  fits := fits
  bound := Nat.zero_le _
  active := active_announce _ _ (by omega)
  pos := pos_announce _ _ (by omega)
  len := len_announce _ (by omega) (by grind)
  unread := fun i _ before => text_announce w (by omega) before

theorem ReaderHolds.setPos {w : Window} {r : Reader} (holds : ReaderHolds w base r)
    (inside : base + inrdMax + dataOffset ≤ windowSize) {next : Nat}
    (forward : r.pos ≤ next) (bound : next ≤ r.text.length) :
    ReaderHolds (w.setPos base next) base { r with pos := next } where
  fits := holds.fits
  bound := bound
  active := (active_setPos w next).trans holds.active
  pos := by
    have fits := holds.fits
    exact pos_setPos w (by omega) (by grind)
  len := (len_setPos w next).trans holds.len
  unread := fun i after before =>
    (text_setPos w next).trans (holds.unread i (forward.trans after) before)

end Header

section Scan

variable {script script' : Nat → UInt8}

theorem scanScript_pos_ge (script : Nat → UInt8) (left pos : Nat) (out : List UInt8) :
    pos ≤ (scanScript script left pos out).pos := by
  induction left generalizing pos out with
  | zero => exact Nat.le_refl pos
  | succ left ih =>
      have next := fun out => Nat.le_of_succ_le (ih (pos + 1) out)
      simp only [scanScript]
      split
      · exact Nat.le_succ pos
      split
      · exact next _
      split
      · split
        · exact next _
        · exact Nat.le_succ pos
      split
      · exact next _
      · exact next _

theorem scanScript_pos_le (script : Nat → UInt8) (left pos : Nat) (out : List UInt8) :
    (scanScript script left pos out).pos ≤ pos + left := by
  induction left generalizing pos out with
  | zero => exact Nat.le_refl pos
  | succ left ih =>
      have next := fun out => (ih (pos + 1) out).trans (by omega : _ ≤ pos + (left + 1))
      simp only [scanScript]
      split
      · exact Nat.add_le_add_left (Nat.le_add_left 1 left) pos
      split
      · exact next _
      split
      · split
        · exact next _
        · exact Nat.add_le_add_left (Nat.le_add_left 1 left) pos
      split
      · exact next _
      · exact next _

theorem scanScript_congr {left pos : Nat} {out : List UInt8}
    (same : ∀ i, pos ≤ i → i < pos + left → script i = script' i) :
    scanScript script left pos out = scanScript script' left pos out := by
  induction left generalizing pos out with
  | zero => rfl
  | succ left ih =>
      have rest (out : List UInt8) : scanScript script left (pos + 1) out =
          scanScript script' left (pos + 1) out :=
        ih fun i after before => same i (by omega) (by omega)
      simp only [scanScript, same pos (by omega) (by omega), rest]

theorem submitNextLine_of_holds {w : Window} {r : Reader}
    (holds : ReaderHolds w submitBase r) :
    submitNextLine w =
      (r.scan.line,
        if r.scan.finished then (w.setPos submitBase r.scan.pos).setActive submitBase 0
        else w.setPos submitBase r.scan.pos) := by
  have bound := holds.bound
  have scan : scanScript (w.text submitBase) (w.len submitBase - w.pos submitBase)
      (w.pos submitBase) [] = r.scan := by
    rw [holds.pos, holds.len]
    exact scanScript_congr fun i after before => holds.unread i after (by omega)
  rw [submitNextLine, holds.active, if_neg (by decide), scan]

theorem redirGetc_of_holds {w : Window} {r : Reader} (holds : ReaderHolds w inrdBase r) :
    redirGetc w =
      if r.text.length ≤ r.pos then (some 0x1A, w)
      else (some (r.byte r.pos), w.setPos inrdBase (r.pos + 1)) := by
  rw [redirGetc, holds.active, if_neg (by decide), holds.pos, holds.len]
  split
  · rfl
  · rw [holds.unread r.pos (Nat.le_refl _) (by omega)]

end Scan

section Changes

variable (w : Window) {i : Nat}

theorem get_cmdSubmit {file : Option (List UInt8)}
    (fits : ∀ bytes, file = some bytes → bytes.length ≤ inrdMax) (after : inrdBase ≤ i) :
    (cmdSubmit w file).get i = w.get i := by
  cases file with
  | none => rfl
  | some bytes =>
      have short := fits bytes rfl
      have loaded : (w.blit (submitBase + dataOffset) (bytes.take maxScript)).get i =
          w.get i := by
        apply Buffer.get_blit_of_ge
        grind
      simp only [cmdSubmit]
      split
      · exact loaded
      · rw [get_announce _ _ (by grind)]
        exact loaded

theorem get_windowAfterLine (after : dataOffset ≤ i) :
    (windowAfterLine w).get i = w.get i := by
  unfold windowAfterLine submitNextLine
  split
  · rfl
  · simp only
    split
    · rw [get_setActive _ _ (by grind), get_setPos _ _ (by grind)]
    · rw [get_setPos _ _ (by grind)]

theorem get_inrdBegin_of_lt (file : FileRead) (before : i < inrdBase) :
    (inrdBegin w file).get i = w.get i := by
  cases file with
  | notFound => rfl
  | failed bytes => exact Buffer.get_blit_of_lt w (by omega)
  | read bytes =>
      rw [inrdBegin, get_announce _ _ (Or.inl before)]
      exact Buffer.get_blit_of_lt w (by omega)

theorem get_inrdBegin_of_ge {file : FileRead} {bytes : List UInt8}
    (delivers : file = .failed bytes ∨ file = .read bytes)
    (after : inrdBase + dataOffset + bytes.length ≤ i) :
    (inrdBegin w file).get i = w.get i := by
  have loaded : (w.blit (inrdBase + dataOffset) (bytes.take inrdMax)).get i = w.get i := by
    apply Buffer.get_blit_of_ge
    grind
  rcases delivers with rfl | rfl
  · exact loaded
  · rw [inrdBegin, get_announce _ _ (by grind)]
    exact loaded

theorem get_windowAfterGetc (outside : i < inrdBase ∨ inrdBase + dataOffset ≤ i) :
    (windowAfterGetc w).get i = w.get i := by
  unfold windowAfterGetc redirGetc
  split
  · rfl
  split
  · rfl
  · exact get_setPos _ _ (by grind)

theorem get_inrdEnd (outside : i < inrdBase ∨ inrdBase + dataOffset ≤ i) :
    (inrdEnd w).get i = w.get i :=
  get_setActive _ _ (by grind)

theorem length_pipeHalf_lt (half : List UInt8) (arrow : UInt8) :
    (pipeHalf half arrow).length < 160 := by
  have taken := List.length_take_le (160 - 16) half
  simp only [pipeHalf, pipeTmp, List.length_append, List.length_cons, List.length_nil]
  omega

theorem get_storePipe (before after : List UInt8) (outside : i < leftBase ∨ argvBase ≤ i) :
    (storePipe w before after).get i = w.get i := by
  have left := length_pipeHalf_lt (before.rdropWhile (· = 32)) 62
  have right := length_pipeHalf_lt (after.dropWhile (· = 32)) 60
  rw [storePipe, get_storeString _ (by grind [pipeRight]),
    get_storeString _ (by grind [pipeLeft])]

theorem layoutArgs_bounds (off : Nat) (argv : List (List UInt8)) :
    ∀ slot ∈ layoutArgs off argv,
      argvBase + off ≤ slot.1 ∧ slot.1 + slot.2.length < windowSize := by
  induction argv generalizing off with
  | nil => simp [layoutArgs]
  | cons arg rest ih =>
      intro slot mem
      simp only [layoutArgs] at mem
      split at mem
      · have taken := List.length_take_le (argvSafeSize - 1 - off) arg
        rcases List.mem_cons.mp mem with rfl | later
        · exact ⟨Nat.le_refl _, by grind⟩
        · have bounds := ih _ slot later
          exact ⟨by omega, bounds.2⟩
      · simp at mem

theorem get_foldl_storeString {off : Nat} (argv : List (List UInt8))
    (before : i < argvBase + off) :
    ((layoutArgs off argv).foldl (fun w slot => w.storeString slot.1 slot.2) w).get i =
      w.get i := by
  have bounds := layoutArgs_bounds off argv
  generalize layoutArgs off argv = slots at bounds
  induction slots generalizing w with
  | nil => rfl
  | cons slot rest ih =>
      rw [List.foldl_cons, ih _ fun other mem => bounds other (List.mem_cons_of_mem _ mem)]
      have first := bounds slot List.mem_cons_self
      exact get_storeString w (by omega)

theorem get_saveArgs (argv : List (List UInt8)) (before : i < argvBase) :
    (saveArgs w argv).get i = w.get i :=
  get_foldl_storeString w argv before

theorem stringHolds_layoutArgs {off : Nat} {argv : List (List UInt8)}
    (noNul : ∀ arg ∈ argv, 0 ∉ arg) :
    ∀ slot ∈ layoutArgs off argv,
      StringHolds ((layoutArgs off argv).foldl
        (fun w slot => w.storeString slot.1 slot.2) w) slot.1 slot.2 := by
  induction argv generalizing off w with
  | nil => simp [layoutArgs]
  | cons arg rest ih =>
      have bounds := layoutArgs_bounds off (arg :: rest)
      simp only [layoutArgs] at bounds ⊢
      split
      · rename_i room
        rw [if_pos room] at bounds
        intro slot mem
        rcases List.mem_cons.mp mem with rfl | later
        · have fits := (bounds _ List.mem_cons_self).2
          have clean : 0 ∉ arg.take (argvSafeSize - 1 - off) := fun member =>
            noNul arg List.mem_cons_self (List.mem_of_mem_take member)
          apply (StringHolds.store w fits clean).congr
          intro i _ before
          exact get_foldl_storeString _ rest (by grind)
        · exact ih _ (fun arg mem => noNul arg (List.mem_cons_of_mem _ mem)) slot later
      · simp

end Changes

end Ncd15.Xcpm
