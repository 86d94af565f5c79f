import Ncd15.Library.Flat
import Ncd15.Library.Prog
import Ncd15.Library.Watched
import Ncd15.Xcpm.Console

/-!
# The loader of S-records

`cmd_srec` reads records from the console and stores each data byte as soon as its two digits
are read.  The records go to a memory apart from the loader's own line buffer.
-/

namespace Ncd15.Xcpm

open Ncd15.Library

section Model

/-- What the console has still to deliver, `line`, the memory that is loaded, and what was
printed. -/
structure SrecState where
  input : List UInt8
  line : Watched 256
  mem : Flat
  printed : List UInt8

/-- `hex_nibble`. -/
def hexNibble (c : UInt8) : Option Nat :=
  if 48 ≤ c ∧ c ≤ 57 then some (c.toNat - 48)
  else if 65 ≤ c ∧ c ≤ 70 then some (c.toNat - 65 + 10)
  else if 97 ≤ c ∧ c ≤ 102 then some (c.toNat - 97 + 10)
  else none

/-- The loop of `srec_read_line`: the length of the line, or none for -1, and what is left of
the input.  It waits when there is no more. -/
def readChars (max : Nat) :
    List UInt8 → Watched 256 → Nat → Option (Option Nat × List UInt8 × Watched 256)
  | [], _, _ => none
  | c :: rest, line, n =>
      if c = 13 ∨ c = 10 then
        if 0 < n then some (some n, rest, line.store n 0) else readChars max rest line n
      else if c = 3 then some (none, rest, line)
      else if n < max - 1 then readChars max rest (line.store n c) (n + 1)
      else readChars max rest line n

/-- `srec_read_line`. -/
def srecReadLine : Prog SrecState (Option Nat) := fun s =>
  (readChars 256 s.input s.line 0).map fun (n, input, line) => (n, { s with input, line })

/-- `line[p]`. -/
def lineAt (p : Nat) : Prog SrecState UInt8 := fun s =>
  some (s.line.buf.get p,
    { s with line := { s.line with inside := s.line.inside && decide (p < 256) } })

def print (text : List UInt8) : Prog SrecState Unit :=
  modify fun s => { s with printed := s.printed ++ puts text }

/-- `srec_byte`. -/
def srecByte (p : Nat) : Prog SrecState (Option UInt8) := do
  let hi := hexNibble (← lineAt p)
  let lo := hexNibble (← lineAt (p + 1))
  match hi, lo with
  | some hi, some lo => pure (some (UInt8.ofNat (hi <<< 4 ||| lo)))
  | _, _ => pure none

/-- The loop of `srec_addr`, with the number of bytes it has still to read. -/
def srecAddr : Nat → Nat → UInt32 → Prog SrecState (Option UInt32)
  | 0, _, a => pure (some a)
  | left + 1, p, a => do
      match ← srecByte p with
      | none => pure none
      | some b => srecAddr left (p + 2) (a <<< 8 ||| b.toUInt32)

/-- The loop of `cmd_srec` over the data: the checksum, or none for `err`. -/
def loadData : Nat → Nat → UInt32 → UInt8 → Prog SrecState (Option UInt8)
  | 0, _, _, cksum => pure (some cksum)
  | left + 1, p, dst, cksum => do
      match ← srecByte p with
      | none => do
          print (ascii "?bad hex\r\n")
          pure none
      | some b => do
          modify fun s => { s with mem := s.mem.put dst b }
          loadData left (p + 2) (dst + 1) (cksum + b)

/-- `alen` of a data record. -/
def addrLen (type : UInt8) : Nat :=
  if type = 49 then 4 else if type = 50 then 6 else if type = 51 then 8 else 0

/-- The checksum so far: the count and the bytes of the address. -/
def headSum (count : UInt8) (a : UInt32) : UInt8 :=
  count + (a >>> 24 &&& 0xFF).toUInt8 + (a >>> 16 &&& 0xFF).toUInt8 +
    (a >>> 8 &&& 0xFF).toUInt8 + (a &&& 0xFF).toUInt8

/-- The checksum at the end of a record. -/
def checkSum (a : UInt32) (p : Nat) (cksum : UInt8) : Prog SrecState Unit := do
  match ← srecByte p with
  | some cklo =>
      if ~~~cksum ≠ cklo then
        print (ascii "?cksum @ 0x" ++ puthex a.toNat 6 ++ ascii "\r\n")
      else pure ()
  | none => print (ascii "?cksum @ 0x" ++ puthex a.toNat 6 ++ ascii "\r\n")

/-- A data record behind its count. -/
def loadRecord (type count : UInt8) : Prog SrecState Unit := do
  let alen := addrLen type
  if alen = 0 then pure ()
  else do
    match ← srecAddr (alen / 2) 4 0 with
    | none => print (ascii "?bad hex\r\n")
    | some a => do
        let dataLen := count.toNat - alen / 2 - 1
        match ← loadData dataLen (4 + alen) a (headSum count a) with
        | none => pure ()
        | some cksum => checkSum a (4 + alen + 2 * dataLen) cksum

/-- How the loop of `cmd_srec` is left, with `entry` when there is one. -/
inductive LoadEnd
  | aborted
  | ended (entry : Option UInt32)

/-- A record with the entry address. -/
def endRecord (type : UInt8) : Prog SrecState LoadEnd := do
  let alen := if type = 55 then 8 else if type = 56 then 6 else 4
  match ← srecAddr (alen / 2) 4 0 with
  | none => do
      print (ascii "?bad hex\r\n")
      pure (.ended none)
  | some entry => do
      print (ascii "end record, entry=0x" ++ puthex entry.toNat 6 ++ ascii "\r\n")
      pure (.ended (some entry))

/-- A line of the types 0 to 5 from its count on. -/
def dataLine (type : UInt8) : Prog SrecState Unit := do
  match ← srecByte 2 with
  | none => print (ascii "?bad count\r\n")
  | some count => if count < 1 then print (ascii "?bad count\r\n") else loadRecord type count

/-- What is done with a line. -/
def loadLine : Prog SrecState (Unit ⊕ LoadEnd) := do
  if (← lineAt 0) ≠ 83 then do
    print (ascii "?expected S-record\r\n")
    pure (.inl ())
  else do
    let type ← lineAt 1
    if type = 55 ∨ type = 56 ∨ type = 57 then do
      let result ← endRecord type
      pure (.inr result)
    else if type < 48 ∨ 53 < type then pure (.inl ())
    else do
      dataLine type
      pure (.inl ())

/-- One round of the loop of `cmd_srec`. -/
def loadRound (_ : Unit) : Prog SrecState (Unit ⊕ LoadEnd) := do
  match ← srecReadLine with
  | none => do
      print (ascii "\r\n?aborted\r\n")
      pure (.inr .aborted)
  | some _ => loadLine

/-- `cmd_srec` without arguments, up to the end of its loop. -/
def srecLoad (rounds : Nat) : Prog SrecState LoadEnd := do
  print (ascii "Send S-records (Ctrl-C to abort):\r\n")
  Prog.loop loadRound rounds ()

end Model

end Ncd15.Xcpm
