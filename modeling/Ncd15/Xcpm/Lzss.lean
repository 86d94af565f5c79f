import Ncd15.Library.Buffer

/-!
# The LZSS decoders of the kernel

Both decoders of `lzss.c` and the 4 KB sliding window they share with the
scratch users of BDOS 122.  A round of either decoder consumes at least one byte
of the blob, so as many rounds as the blob has bytes reach the end.
-/

namespace Ncd15.Xcpm

open Ncd15.Library

/-- `LZSS_WINDOW_SIZE`. -/
abbrev windowSize : Nat := 4096

/-- `lzss_window`. -/
abbrev Window := Buffer windowSize

/-- `lzss_uncompressed_size`: 0 without the magic. -/
def lzssUncompressedSize (blob : List UInt8) : Nat :=
  if blob.take 4 = [76, 90, 83, 83] then
    (blob.getD 4 0).toNat * 2 ^ 24 + (blob.getD 5 0).toNat * 2 ^ 16 +
      (blob.getD 6 0).toNat * 2 ^ 8 + (blob.getD 7 0).toNat
  else 0

/-- The local variables of a decoder: read position, output position, window
position, flag byte, the window, and the output so far. -/
structure LzssState where
  inp : Nat
  op : Nat
  wpos : Nat
  flags : Nat
  window : Window
  output : List UInt8

namespace LzssState

def start : LzssState :=
  { inp := 8, op := 0, wpos := 0, flags := 0, window := Buffer.zero, output := [] }

def emit (s : LzssState) (c : UInt8) : LzssState :=
  { s with
    op := (s.op + 1) % 2 ^ 32
    wpos := (s.wpos + 1) % 2 ^ 32
    window := s.window.blit (s.wpos % windowSize) [c]
    output := s.output ++ [c] }

/-- The copy of a match, which stops with an error at `outMax` bytes. -/
def copyMatch (outMax : Nat) (winPos : Nat) : Nat → Nat → LzssState →
    Except LzssState LzssState
  | 0, _, s => .ok s
  | len + 1, i, s =>
      if outMax ≤ s.op then .error s
      else copyMatch outMax winPos len (i + 1)
        (s.emit (s.window.get ((winPos + i) % windowSize)))

/-- A new flag byte every eight outputs. -/
def fetchFlags (blob : List UInt8) (s : LzssState) : Except LzssState LzssState :=
  if s.flags / 0x100 % 2 = 0 then
    if blob.length ≤ s.inp then .error s
    else .ok { s with inp := s.inp + 1, flags := (blob.getD s.inp 0).toNat + 0xFF00 }
  else .ok s

/-- One literal or one match. -/
def output1 (blob : List UInt8) (outMax : Nat) (s : LzssState) :
    Except LzssState LzssState :=
  if s.flags % 2 = 1 then
    if blob.length ≤ s.inp ∨ outMax ≤ s.op then .error s
    else .ok ({ s with inp := s.inp + 1 }.emit (blob.getD s.inp 0))
  else if blob.length ≤ s.inp + 1 then .error s
  else
    let b1 := (blob.getD s.inp 0).toNat
    let b2 := (blob.getD (s.inp + 1) 0).toNat
    copyMatch outMax (b1 + b2 / 16 * 256) (b2 % 16 + 3) 0 { s with inp := s.inp + 2 }

def round (blob : List UInt8) (outMax : Nat) (s : LzssState) : Except LzssState LzssState := do
  let s ← s.fetchFlags blob
  let s ← s.output1 blob outMax
  return { s with flags := s.flags / 2 }

def decode (blob : List UInt8) (outMax expected : Nat) : Nat → LzssState →
    Except LzssState LzssState
  | 0, s => .ok s
  | rounds + 1, s =>
      if s.op < expected then do
        decode blob outMax expected rounds (← s.round blob outMax)
      else .ok s

end LzssState

/-- What a decoder leaves behind: its result, its output and the window. -/
structure LzssResult where
  count : Nat
  output : List UInt8
  window : Window

/-- The end of a decoder, normal or not. -/
def LzssResult.ofRun : Except LzssState LzssState → LzssResult
  | .ok s => { count := s.op, output := s.output, window := s.window }
  | .error s => { count := 0, output := s.output, window := s.window }

def lzssDecompress (window : Window) (blob : List UInt8) (outMax : Nat) : LzssResult :=
  let expected := lzssUncompressedSize blob
  if expected = 0 ∨ outMax < expected then { count := 0, output := [], window := window }
  else .ofRun (LzssState.start.decode blob outMax expected blob.length)

/-- `lzss_decompress_stream`: no bound on the output. -/
def lzssDecompressStream (window : Window) (blob : List UInt8) : LzssResult :=
  let expected := lzssUncompressedSize blob
  if expected = 0 then { count := 0, output := [], window := window }
  else .ofRun (LzssState.start.decode blob (2 ^ 32) expected blob.length)

end Ncd15.Xcpm
