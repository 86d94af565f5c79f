import Ncd15.Xcpm.Lzss
import Mathlib.Data.List.DropRight

/-!
# The users of the scratch window

The kernel lends its LZSS window to the CCP (BDOS 122).  Submit scripts and
redirected input keep a header of three words and their text in it, a pipe
keeps its two halves, and a redirected command its arguments, all at fixed
offsets.
-/

namespace Ncd15.Xcpm

open Ncd15.Library

abbrev ccpLineMax : Nat := 80

/-- `SUBMIT_DATA_OFFSET` and `INRD_DATA_OFF`. -/
abbrev dataOffset : Nat := 16

/-- Where `struct submit_hdr` lies. -/
abbrev submitBase : Nat := 0

/-- `INRD_AREA_OFF`. -/
abbrev inrdBase : Nat := 2048

/-- The offsets of the pipe strings in `handle_pipe`. -/
abbrev leftBase : Nat := 3616
abbrev rightBase : Nat := 3776

abbrev argvSafeSize : Nat := ccpLineMax * 2

/-- `argv_safe_ptr`. -/
abbrev argvBase : Nat := windowSize - argvSafeSize

namespace Window

/-- The fields of `struct submit_hdr` and `struct inrd_hdr`. -/
def active (w : Window) (base : Nat) : Nat := w.loadBe base 4
def pos (w : Window) (base : Nat) : Nat := w.loadBe (base + 4) 4
def len (w : Window) (base : Nat) : Nat := w.loadBe (base + 8) 4

def setActive (w : Window) (base v : Nat) : Window := w.blit base (Buffer.beBytes 4 v)
def setPos (w : Window) (base v : Nat) : Window := w.blit (base + 4) (Buffer.beBytes 4 v)
def setLen (w : Window) (base v : Nat) : Window := w.blit (base + 8) (Buffer.beBytes 4 v)

/-- The text behind a header. -/
def text (w : Window) (base i : Nat) : UInt8 := w.get (base + dataOffset + i)

/-- A file read into the text area, and the header that announces it. -/
def announce (w : Window) (base length : Nat) : Window :=
  ((w.setLen base length).setPos base 0).setActive base 1

def storeString (w : Window) (off : Nat) (s : List UInt8) : Window := w.blit off (s ++ [0])

def cString (w : Window) (off : Nat) : List UInt8 :=
  (w.slice off (windowSize - off)).takeWhile (· ≠ 0)

end Window

section Submit

/-- `max_script`: the room BDOS 122 reports, less the header. -/
abbrev maxScript : Nat := windowSize - dataOffset

/-- `cmd_submit` on the bytes BDOS 121 delivers, or on a file it does not find. -/
def cmdSubmit (w : Window) : Option (List UInt8) → Window
  | none => w
  | some delivered =>
      let loaded : Window := w.blit (submitBase + dataOffset) (delivered.take maxScript)
      let n := min delivered.length maxScript
      if maxScript ≤ n then loaded else loaded.announce submitBase n

/-- The line in `out` as `submit_next_line` returns it, and whether it is silent. -/
def finishLine (out : List UInt8) : List UInt8 × Bool :=
  if out.head? = some 64 then (out.tail, true) else (out, false)

/-- What the scan of a script finds: a line and the position behind it, or the
end of the script. -/
structure ScriptScan where
  line : Option (List UInt8 × Bool)
  pos : Nat
  finished : Bool

/-- The text that remains in `out` when the script ends. -/
def lastLine (out : List UInt8) : Option (List UInt8 × Bool) :=
  if out ≠ [] ∧ out.head? ≠ some 35 then some (finishLine out) else none

/-- The loop of `submit_next_line`; the first argument counts the bytes left. -/
def scanScript (script : Nat → UInt8) : Nat → Nat → List UInt8 → ScriptScan
  | 0, pos, out => { line := lastLine out, pos := pos, finished := true }
  | left + 1, pos, out =>
      let c := script pos
      if c = 0x1A ∨ c = 0 then { line := lastLine out, pos := pos + 1, finished := true }
      else if c = 13 then scanScript script left (pos + 1) out
      else if c = 10 then
        if out = [] ∨ out.head? = some 35 then scanScript script left (pos + 1) []
        else { line := some (finishLine out), pos := pos + 1, finished := false }
      else if out.length < ccpLineMax then scanScript script left (pos + 1) (out ++ [c])
      else scanScript script left (pos + 1) out

/-- `submit_next_line`: the line, or `none` when the script is exhausted. -/
def submitNextLine (w : Window) : Option (List UInt8 × Bool) × Window :=
  if w.active submitBase = 0 then (none, w)
  else
    let scan := scanScript (w.text submitBase) (w.len submitBase - w.pos submitBase)
      (w.pos submitBase) []
    let moved := w.setPos submitBase scan.pos
    (scan.line, if scan.finished then moved.setActive submitBase 0 else moved)

end Submit

section Input

/-- What opening and reading the redirected file comes to. -/
inductive FileRead
  | notFound
  | failed (bytes : List UInt8)
  | read (bytes : List UInt8)

/-- `buf_max` of `d_ext_inrd_begin`. -/
abbrev inrdMax : Nat := 2048 - dataOffset

/-- `d_ext_inrd_begin`. -/
def inrdBegin (w : Window) : FileRead → Window
  | .notFound => w
  | .failed bytes => w.blit (inrdBase + dataOffset) (bytes.take inrdMax)
  | .read bytes =>
      let loaded : Window := w.blit (inrdBase + dataOffset) (bytes.take inrdMax)
      loaded.announce inrdBase (min bytes.length inrdMax)

/-- `d_ext_inrd_end`. -/
def inrdEnd (w : Window) : Window := w.setActive inrdBase 0

/-- `bdos_redir_getc`; `none` is -1. -/
def redirGetc (w : Window) : Option UInt8 × Window :=
  if w.active inrdBase = 0 then (none, w)
  else if w.len inrdBase ≤ w.pos inrdBase then (some 0x1A, w)
  else (some (w.text inrdBase (w.pos inrdBase)),
    w.setPos inrdBase (w.pos inrdBase + 1))

end Input

section Pipe

/-- The search of `handle_pipe` for an unquoted `" | "`: the text before the bar
and the text after it. -/
def findBar (before : List UInt8) (inSquote inDquote : Bool) :
    List UInt8 → Option (List UInt8 × List UInt8)
  | [] => none
  | c :: rest =>
      if c = 39 ∧ !inDquote then findBar (before ++ [c]) (!inSquote) inDquote rest
      else if c = 34 ∧ !inSquote then findBar (before ++ [c]) inSquote (!inDquote) rest
      else if c = 124 ∧ !inSquote ∧ !inDquote ∧ before.getLast? = some 32 ∧
          rest.head? = some 32 then
        some (before, rest)
      else findBar (before ++ [c]) inSquote inDquote rest

/-- `TMPNAME`. -/
def pipeTmp : List UInt8 := [80, 73, 80, 69, 46, 84, 77, 80]

/-- One half of a pipe, with its redirection to the temporary file. -/
def pipeHalf (half : List UInt8) (arrow : UInt8) : List UInt8 :=
  half.take (160 - 16) ++ [32, arrow, 32] ++ pipeTmp

/-- The two command lines `handle_pipe` builds. -/
def pipeLeft (before : List UInt8) : List UInt8 :=
  pipeHalf (before.rdropWhile (· = 32)) 62

def pipeRight (after : List UInt8) : List UInt8 :=
  pipeHalf (after.dropWhile (· = 32)) 60

/-- The stores of `handle_pipe`. -/
def storePipe (w : Window) (before after : List UInt8) : Window :=
  (w.storeString leftBase (pipeLeft before)).storeString rightBase (pipeRight after)

end Pipe

section Argv

/-- The part of each argument that fits in `argv_safe`, with its offset. -/
def layoutArgs : Nat → List (List UInt8) → List (Nat × List UInt8)
  | _, [] => []
  | off, arg :: rest =>
      if off < argvSafeSize - 1 then
        let stored := arg.take (argvSafeSize - 1 - off)
        (argvBase + off, stored) :: layoutArgs (off + stored.length + 1) rest
      else []

/-- The copy of the arguments in `run_line`. -/
def saveArgs (w : Window) (argv : List (List UInt8)) : Window :=
  (layoutArgs 0 argv).foldl (fun w slot => w.storeString slot.1 slot.2) w

end Argv

end Ncd15.Xcpm
