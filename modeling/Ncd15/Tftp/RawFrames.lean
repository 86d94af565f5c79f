import Ncd15.Library.PosixPath
import Ncd15.Library.StructPack
import Ncd15.Tftp.RawTftpd
import Mathlib.Logic.Function.Basic

/-!
# The frames of the raw-frame TFTP server

The main loop of `raw_tftpd.py`, one frame after the other.  An index behind the end of
bytes and a number that does not fit its field raise an exception, which ends the server.
-/

namespace Ncd15.Tftp.Raw

open Ncd15.Library

section Bytes

/-- The exceptions of an index and of `struct.pack`. -/
inductive PyError
  | indexError
  | structError
  deriving DecidableEq

abbrev Py := Except PyError

/-- `b[i]`. -/
def index {α : Type} (b : List α) (i : Nat) : Py α :=
  match b[i]? with
  | some x => .ok x
  | none => .error .indexError

/-- `b[i:j]`. -/
def slice (b : List Byte) (i j : Nat) : List Byte := (b.take j).drop i

/-- `(hi << 8) | lo`. -/
def bigEndian (hi lo : Byte) : Nat := hi.toNat <<< 8 ||| lo.toNat

def pack (fields : List PackField) : Py (List Byte) :=
  match structPack fields with
  | some bytes => .ok bytes
  | none => .error .structError

end Bytes

section Frames

/-- The sum of `ip_csum`, two bytes in a round. -/
def ipSum (s : Nat) : List Byte → Py Nat
  | [] => .ok s
  | [_] => .error .indexError
  | hi :: lo :: rest => ipSum (s + bigEndian hi lo) rest

/-- `while s >> 16: s = (s & 0xFFFF) + (s >> 16)`. -/
def foldCarries (s : Nat) : Nat :=
  if s < 65536 then s else foldCarries (s % 65536 + s / 65536)
  termination_by s

def ipCsum (b : List Byte) : Py Nat := do
  return 65535 - foldCarries (← ipSum 0 b)

def makeUdpFrame (myMac myIp dstMac dstIp : List Byte) (srcPort dstPort : Nat)
    (payload : List Byte) : Py (List Byte) := do
  let eth := dstMac ++ myMac ++ (← pack [.H 0x0800])
  let udpLen := 8 + payload.length
  let ipLen := 20 + udpLen
  let ip := (← pack [.s [0x45, 0], .H ipLen, .H 0, .H 0, .s [64, 17], .H 0]) ++ myIp ++ dstIp
  let ip := slice ip 0 10 ++ (← pack [.H (← ipCsum ip)]) ++ ip.drop 12
  let udp := (← pack [.H srcPort, .H dstPort, .H udpLen, .H 0]) ++ payload
  return eth ++ ip ++ udp

end Frames

section MainLoop

/-- The arguments of the server. -/
structure Config where
  myMac : List Byte
  myIp : List Byte
  root : Text

/-- A key of `xfers`. -/
abbrev Key := List Byte × List Byte × Nat

structure RawState where
  xfers : Key → Option Xfer
  sent : List (List Byte)

/-- What the loop takes from a frame. -/
structure Datagram where
  srcMac : List Byte
  srcIp : List Byte
  sp : Nat
  pl : List Byte

def Datagram.key (d : Datagram) : Key := (d.srcMac, d.srcIp, d.sp)

/-- The part of the loop before the operation is looked at; `none` is `continue`. -/
def datagram (c : Config) (frame : List Byte) : Py (Option Datagram) := do
  if frame.length < 14 then return none
  let et := bigEndian (← index frame 12) (← index frame 13)
  if et ≠ 0x0800 then return none
  if frame.length < 14 + 20 then return none
  let ipHdr := slice frame 14 (14 + 20)
  if (← index ipHdr 0).toNat >>> 4 ≠ 4 then return none
  let proto ← index ipHdr 9
  let srcIp := slice ipHdr 12 16
  let dstIp := slice ipHdr 16 20
  if dstIp ≠ c.myIp then return none
  if proto ≠ 17 then return none
  let srcMac := slice frame 6 12
  let udp := slice frame (14 + 20) (14 + 20 + 8)
  let sp := bigEndian (← index udp 0) (← index udp 1)
  let dp := bigEndian (← index udp 2) (← index udp 3)
  let plOff := 14 + 20 + 8
  -- the length may be less than the header, which leaves an empty slice
  let plEnd := plOff + bigEndian (← index udp 4) (← index udp 5) - 8
  let pl := slice frame plOff plEnd
  if dp ≠ 69 ∧ sp ≠ 69 then return none
  return some ⟨srcMac, srcIp, sp, pl⟩

/-- `op`. -/
def opcode (pl : List Byte) : Py Nat := do
  if 2 ≤ pl.length then return bigEndian (← index pl 0) (← index pl 1)
  return 0

/-- `bytes.decode("ascii", "replace")`. -/
def asciiDecode (bytes : List Byte) : Text :=
  bytes.map fun b => if b.toNat < 128 then Char.ofNat b.toNat else Char.ofNat 0xFFFD

/-- A read request, with the files that there are. -/
def readRequest (c : Config) (files : Text → Option (List Byte)) (s : RawState) (d : Datagram) :
    Py RawState := do
  let fname := asciiDecode (← index ((d.pl.drop 2).splitOn 0) 0)
  match files (pathJoin c.root (basename fname)) with
  | none =>
      let err := (← pack [.H 5, .H 1]) ++
        "file not found\x00".toList.map fun ch => BitVec.ofNat 8 ch.toNat
      let frame ← makeUdpFrame c.myMac c.myIp d.srcMac d.srcIp 69 d.sp err
      return { s with sent := frame :: s.sent }
  | some file =>
      let x := Xfer.opened file
      let data := (← pack [.H 3, .H 1]) ++ x.chunk
      let frame ← makeUdpFrame c.myMac c.myIp d.srcMac d.srcIp 69 d.sp data
      return ⟨Function.update s.xfers d.key (some (x.numbered 1)), frame :: s.sent⟩

def acknowledge (c : Config) (s : RawState) (d : Datagram) : Py RawState := do
  let ack := bigEndian (← index d.pl 2) (← index d.pl 3)
  match s.xfers d.key with
  | none => return s
  | some x =>
      if x.done ∧ ack = x.lastN then
        return { s with xfers := Function.update s.xfers d.key none }
      let n := ack + 1
      let data := (← pack [.H 3, .H n]) ++ x.chunk
      let frame ← makeUdpFrame c.myMac c.myIp d.srcMac d.srcIp 69 d.sp data
      return ⟨Function.update s.xfers d.key (some (x.numbered n)), frame :: s.sent⟩

/-- One round of the loop of `main`. -/
def iterate (c : Config) (files : Text → Option (List Byte)) (s : RawState)
    (frame : List Byte) : Py RawState := do
  match ← datagram c frame with
  | none => return s
  | some d =>
      let op ← opcode d.pl
      if op = 1 then readRequest c files s d
      else if op = 4 then acknowledge c s d
      else return s

/-- The rounds for frames that are received, each with the files at its time. -/
def serve (c : Config) (received : List ((Text → Option (List Byte)) × List Byte)) :
    Py RawState :=
  received.foldlM (fun s r => iterate c r.1 s r.2) ⟨fun _ => none, []⟩

end MainLoop

section Received

/-- The two bytes at an offset of a frame. -/
def halfAt (frame : List Byte) (i : Nat) : Nat :=
  bigEndian (frame.getD i 0) (frame.getD (i + 1) 0)

/-- A frame with a UDP datagram for the server's address. -/
structure ForUs (c : Config) (frame : List Byte) : Prop where
  long : 34 ≤ frame.length
  type_ : halfAt frame 12 = 0x0800
  version : (frame.getD 14 0).toNat >>> 4 = 4
  dst : slice frame 30 34 = c.myIp
  proto : frame.getD 23 0 = 17

def sourcePort (frame : List Byte) : Nat := halfAt frame 34

def destPort (frame : List Byte) : Nat := halfAt frame 36

def payload (frame : List Byte) : List Byte := slice frame 42 (42 + halfAt frame 38 - 8)

def received (frame : List Byte) : Datagram :=
  ⟨slice frame 6 12, slice frame 26 30, sourcePort frame, payload frame⟩

variable {c : Config} {frame b : List Byte} {i j k l : Nat}

theorem index_of_lt (inside : i < b.length) : index b i = .ok (b.getD i 0) := by
  rw [index, List.getElem?_eq_getElem inside, List.getD_eq_getElem _ _ inside]

theorem index_of_le {α : Type} {b : List α} (outside : b.length ≤ i) :
    index b i = .error .indexError := by
  rw [index, List.getElem?_eq_none outside]

theorem index_slice (inside : i + k < j) : index (slice b i j) k = index b (i + k) := by
  rw [index, index, slice, List.getElem?_drop, List.getElem?_take_of_lt inside]

theorem slice_slice (inside : i + l ≤ j) : slice (slice b i j) k l = slice b (i + k) (i + l) := by
  rw [slice, slice, slice, List.take_drop, List.take_take, List.drop_drop, min_eq_left inside]

theorem length_slice : (slice b i j).length = min j b.length - i := by
  rw [slice, List.length_drop, List.length_take]

theorem bigEndian_lt (hi lo : Byte) : bigEndian hi lo < 65536 := by
  have high : hi.toNat <<< 8 < 2 ^ 16 := by
    rw [Nat.shiftLeft_eq]
    omega
  exact Nat.or_lt_two_pow high (lo.isLt.trans (by decide))

theorem ok_bind {α β : Type} (a : α) (f : α → Py β) : (Except.ok a : Py α) >>= f = f a := rfl

theorem error_bind {α β : Type} (e : PyError) (f : α → Py β) :
    (Except.error e : Py α) >>= f = .error e := rfl

/-- A read that fails or is followed by one that does. -/
theorem index_bind_eq_error {α : Type} {f : Byte → Py α}
    (rest : f (b.getD i 0) = .error .indexError) :
    index b i >>= f = .error .indexError := by
  by_cases inside : i < b.length
  · rw [index_of_lt inside, ok_bind, rest]
  · rw [index_of_le (by omega), error_bind]

/-- What the loop makes of a frame. -/
theorem datagram_of_forUs (forUs : ForUs c frame) :
    datagram c frame =
      if frame.length < 40 then .error .indexError
      else if destPort frame = 69 ∨ sourcePort frame = 69 then .ok (some (received frame))
      else .ok none := by
  have long := forUs.long
  have type_ := forUs.type_
  rw [halfAt] at type_
  have version := forUs.version
  have dst := forUs.dst
  have proto := forUs.proto
  unfold datagram
  simp only [index_slice, slice_slice, Nat.reduceAdd, Nat.reduceLT, Nat.reduceLeDiff]
  rw [if_neg (by omega), index_of_lt (i := 12) (by omega), index_of_lt (i := 13) (by omega),
    index_of_lt (i := 14) (by omega), index_of_lt (i := 23) (by omega)]
  simp only [ok_bind]
  rw [if_neg (by rw [type_]; decide), if_neg (by omega), if_neg (by rw [version]; decide), dst,
    proto]
  simp only [ne_eq, not_true_eq_false, if_false]
  by_cases short : frame.length < 40
  · rw [if_pos short]
    refine index_bind_eq_error (index_bind_eq_error (index_bind_eq_error (index_bind_eq_error
      (index_bind_eq_error ?_))))
    rw [index_of_le (by omega)]
    rfl
  · rw [if_neg short, index_of_lt (i := 34) (by omega), index_of_lt (i := 35) (by omega),
      index_of_lt (i := 36) (by omega), index_of_lt (i := 37) (by omega),
      index_of_lt (i := 38) (by omega), index_of_lt (i := 39) (by omega)]
    simp only [ok_bind]
    by_cases tftp : destPort frame = 69 ∨ sourcePort frame = 69
    · rw [if_pos tftp, if_neg (by rw [not_and_or, not_not, not_not]; exact tftp)]
      rfl
    · rw [if_neg tftp]
      exact if_pos (not_or.mp tftp)

theorem datagram_of_not_forUs (other : ¬ ForUs c frame) : datagram c frame = .ok none := by
  unfold datagram
  simp only [index_slice, slice_slice, Nat.reduceAdd, Nat.reduceLT, Nat.reduceLeDiff]
  by_cases tiny : frame.length < 14
  · rw [if_pos tiny]
    rfl
  rw [if_neg tiny, index_of_lt (i := 12) (by omega), index_of_lt (i := 13) (by omega)]
  simp only [ok_bind]
  by_cases type_ : bigEndian (frame.getD 12 0) (frame.getD 13 0) = 0x0800
  case neg =>
    rw [if_pos type_]
    rfl
  rw [if_neg (not_not_intro type_)]
  by_cases short : frame.length < 34
  · rw [if_pos short]
    rfl
  rw [if_neg short, index_of_lt (i := 14) (by omega), index_of_lt (i := 23) (by omega)]
  simp only [ok_bind]
  by_cases version : (frame.getD 14 0).toNat >>> 4 = 4
  case neg =>
    rw [if_pos version]
    rfl
  rw [if_neg (not_not_intro version)]
  by_cases dst : slice frame 30 34 = c.myIp
  case neg =>
    rw [if_pos dst]
    rfl
  rw [if_neg (not_not_intro dst)]
  have proto : frame.getD 23 0 ≠ 17 := fun proto =>
    other ⟨by omega, type_, version, dst, proto⟩
  rw [if_pos proto]
  rfl

end Received

section Sent

theorem pack_of_fits {fields : List PackField} (fit : ∀ field ∈ fields, field.fits = true) :
    pack fields = .ok (packed fields) := by
  rw [pack, structPack_of_fits fit]

theorem pack_block {n : Nat} :
    pack [.H 3, .H n] = if n < 65536 then .ok (packed [.H 3, .H n]) else .error .structError := by
  by_cases small : n < 65536
  · rw [if_pos small]
    apply pack_of_fits
    simp [PackField.fits, small]
  · rw [if_neg small, pack, structPack, if_neg (by simpa [PackField.fits] using small)]

theorem ipSum_of_even {b : List Byte} {n : Nat} (even : b.length = 2 * n) (s : Nat) :
    ∃ total, ipSum s b = .ok total := by
  induction n generalizing b s with
  | zero => exact ⟨s, by rw [List.length_eq_zero_iff.mp even]; rfl⟩
  | succ n ih =>
      obtain ⟨hi, lo, rest, rfl⟩ : ∃ hi lo rest, b = hi :: lo :: rest := by
        match b with
        | hi :: lo :: rest => exact ⟨hi, lo, rest, rfl⟩
        | [_] => exact absurd even (by simp; omega)
      rw [List.length_cons, List.length_cons] at even
      exact ih (b := rest) (by omega) _

theorem ipCsum_of_even {b : List Byte} {n : Nat} (even : b.length = 2 * n) :
    ∃ csum < 65536, ipCsum b = .ok csum := by
  obtain ⟨total, sum⟩ := ipSum_of_even even 0
  refine ⟨65535 - foldCarries total, by omega, ?_⟩
  rw [ipCsum, sum]
  rfl

/-- A frame with addresses of four bytes, ports that fit and a payload that is not too long. -/
theorem makeUdpFrame_ok {myIp dstIp : List Byte} {srcPort dstPort : Nat}
    (myMac dstMac pl : List Byte) (own : myIp.length = 4) (other : dstIp.length = 4)
    (src : srcPort < 65536) (dst : dstPort < 65536) (short : 28 + pl.length < 65536) :
    ∃ frame, makeUdpFrame myMac myIp dstMac dstIp srcPort dstPort pl = .ok frame := by
  have header : pack [.s [0x45, 0], .H (20 + (8 + pl.length)), .H 0, .H 0, .s [64, 17], .H 0] =
      .ok (packed [.s [0x45, 0], .H (20 + (8 + pl.length)), .H 0, .H 0, .s [64, 17], .H 0]) := by
    apply pack_of_fits
    simp only [List.forall_mem_cons, PackField.fits, decide_eq_true_eq, List.not_mem_nil,
      false_implies, implies_true, and_true, true_and]
    omega
  have udp : pack [.H srcPort, .H dstPort, .H (8 + pl.length), .H 0] =
      .ok (packed [.H srcPort, .H dstPort, .H (8 + pl.length), .H 0]) := by
    apply pack_of_fits
    simp only [List.forall_mem_cons, PackField.fits, decide_eq_true_eq, List.not_mem_nil,
      false_implies, implies_true, and_true]
    omega
  obtain ⟨csum, small, sum⟩ := ipCsum_of_even (n := 10)
    (b := packed [.s [0x45, 0], .H (20 + (8 + pl.length)), .H 0, .H 0, .s [64, 17], .H 0] ++
      myIp ++ dstIp) (by simp [own, other])
  have sumField : pack [.H csum] = .ok (packed [.H csum]) := by
    apply pack_of_fits
    simpa [PackField.fits] using small
  have eth : pack [.H 0x0800] = .ok (packed [.H 0x0800]) := rfl
  unfold makeUdpFrame
  simp only [eth, header, udp, sum, sumField, ok_bind]
  exact ⟨_, rfl⟩

theorem length_chunk (x : Xfer) : x.chunk.length ≤ 512 := by
  rw [Xfer.chunk, List.length_take]
  omega

end Sent

section Requests

variable {c : Config} {d : Datagram} {s : RawState} {pl : List Byte}

theorem opcode_eq (pl : List Byte) :
    opcode pl = .ok (if 2 ≤ pl.length then halfAt pl 0 else 0) := by
  rw [opcode]
  by_cases two : 2 ≤ pl.length
  · rw [if_pos two, if_pos two, index_of_lt (by omega), index_of_lt (by omega)]
    rfl
  · rw [if_neg two, if_neg two]
    rfl

/-- A read request is always answered. -/
theorem readRequest_ok (files : Text → Option (List Byte)) (s : RawState)
    (own : c.myIp.length = 4) (other : d.srcIp.length = 4) (port : d.sp < 65536) :
    ∃ s', readRequest c files s d = .ok s' := by
  have name : ∃ part, index ((d.pl.drop 2).splitOn 0) 0 = .ok part := by
    obtain ⟨part, rest, parts⟩ := List.exists_cons_of_ne_nil (List.splitOn_ne_nil 0 (d.pl.drop 2))
    exact ⟨part, by rw [parts]; rfl⟩
  obtain ⟨part, name⟩ := name
  have err : pack [.H 5, .H 1] = .ok (packed [.H 5, .H 1]) := rfl
  have data : pack [.H 3, .H 1] = .ok (packed [.H 3, .H 1]) := rfl
  unfold readRequest
  simp only [name, ok_bind]
  cases files (pathJoin c.root (basename (asciiDecode part))) with
  | none =>
      obtain ⟨frame, made⟩ := makeUdpFrame_ok c.myMac d.srcMac (packed [.H 5, .H 1] ++
          "file not found\x00".toList.map fun ch => BitVec.ofNat 8 ch.toNat)
        own other (by decide : 69 < 65536) port (by decide)
      simp only [err, made, ok_bind]
      exact ⟨_, rfl⟩
  | some file =>
      have short := length_chunk (Xfer.opened file)
      obtain ⟨frame, made⟩ := makeUdpFrame_ok c.myMac d.srcMac
        (packed [.H 3, .H 1] ++ (Xfer.opened file).chunk)
        own other (by decide : 69 < 65536) port (by simp; omega)
      simp only [data, made, ok_bind]
      exact ⟨_, rfl⟩

/-- The number in an acknowledgement. -/
def ackOf (pl : List Byte) : BitVec 16 := BitVec.ofNat 16 (halfAt pl 2)

theorem toNat_ackOf (pl : List Byte) : (ackOf pl).toNat = halfAt pl 2 := by
  rw [ackOf, BitVec.toNat_ofNat]
  exact Nat.mod_eq_of_lt (bigEndian_lt _ _)

/-- An acknowledgement is one step of the transfer under its key. -/
theorem acknowledge_eq (s : RawState) (own : c.myIp.length = 4) (other : d.srcIp.length = 4)
    (port : d.sp < 65536) (long : 4 ≤ d.pl.length) :
    let after := (Server.mk (s.xfers d.key) [] false).ack (ackOf d.pl)
    if after.raised then acknowledge c s d = .error .structError
    else ∃ sent, acknowledge c s d =
      .ok ⟨Function.update s.xfers d.key after.xfer, sent ++ s.sent⟩ ∧
        sent.length = after.sent.length := by
  intro after
  unfold acknowledge
  rw [index_of_lt (i := 2) (by omega), index_of_lt (i := 3) (by omega)]
  have number : bigEndian (d.pl.getD 2 0) (d.pl.getD 3 0) = halfAt d.pl 2 := rfl
  simp only [ok_bind, number]
  cases record : s.xfers d.key with
  | none =>
      have kept : Function.update s.xfers d.key none = s.xfers := by
        rw [← record, Function.update_eq_self]
      have same : after = ⟨none, [], false⟩ := by
        simp only [after, record]
        rfl
      rw [same, if_neg (by decide), kept]
      exact ⟨[], rfl, rfl⟩
  | some x =>
      dsimp only
      by_cases final : x.done = true ∧ halfAt d.pl 2 = x.lastN
      · have same : after = ⟨none, [], false⟩ := by
          simp only [after, record, Server.ack, toNat_ackOf]
          rw [if_neg (by decide), if_pos final]
        rw [if_pos final, same, if_neg (by decide)]
        exact ⟨[], rfl, rfl⟩
      · have numbered : after = if halfAt d.pl 2 + 1 < 65536 then
            ⟨some (x.numbered (halfAt d.pl 2 + 1)), [(halfAt d.pl 2 + 1, x.chunk)], false⟩
            else ⟨some (x.numbered (halfAt d.pl 2 + 1)), [], true⟩ := by
          simp only [after, record, Server.ack, toNat_ackOf]
          rw [if_neg (by decide), if_neg final]
        rw [if_neg final, pack_block, numbered]
        by_cases small : halfAt d.pl 2 + 1 < 65536
        · have short := length_chunk x
          obtain ⟨frame, made⟩ := makeUdpFrame_ok c.myMac d.srcMac
            (packed [.H 3, .H (halfAt d.pl 2 + 1)] ++ x.chunk)
            own other (by decide : 69 < 65536) port (by simp; omega)
          rw [if_pos small, if_neg (by simp)]
          refine ⟨[frame], ?_, rfl⟩
          rw [if_pos small, ok_bind, made]
          rfl
        · rw [if_neg small, if_pos rfl, if_neg small]
          rfl

end Requests

section Runs

variable {c : Config} {s : RawState} {frame : List Byte}

/-- An acknowledgement that the server cannot take: one without its number, and one of block
65535 under a transfer that goes on. -/
def Unanswerable (s : RawState) (d : Datagram) : Prop :=
  d.pl.length < 4 ∨ (halfAt d.pl 2 = 65535 ∧
    ∃ x, s.xfers d.key = some x ∧ ¬ (x.done = true ∧ x.lastN = 65535))

/-- The frames that end the server: a datagram with a truncated header, and on the TFTP port an
acknowledgement that it cannot take. -/
def Raises (c : Config) (s : RawState) (frame : List Byte) : Prop :=
  ForUs c frame ∧ (frame.length < 40 ∨
    ((destPort frame = 69 ∨ sourcePort frame = 69) ∧ 2 ≤ (payload frame).length ∧
      halfAt (payload frame) 0 = 4 ∧ Unanswerable s (received frame)))

theorem raised_ack_iff (record : Option Xfer) (ack : BitVec 16) :
    ((Server.mk record [] false).ack ack).raised = true ↔
      ack.toNat = 65535 ∧ ∃ x, record = some x ∧ ¬ (x.done = true ∧ x.lastN = 65535) := by
  have bound := ack.isLt
  rw [Server.ack, if_neg (by simp)]
  cases record with
  | none => simp
  | some x =>
      dsimp only
      by_cases final : x.done = true ∧ ack.toNat = x.lastN
      · rw [if_pos final]
        refine iff_of_false (by simp) ?_
        rintro ⟨top, y, same, goesOn⟩
        obtain rfl := Option.some.inj same
        exact goesOn ⟨final.1, final.2.symm.trans top⟩
      · rw [if_neg final]
        by_cases small : ack.toNat + 1 < 65536
        · rw [if_pos small]
          refine iff_of_false (by simp) ?_
          rintro ⟨top, -⟩
          omega
        · rw [if_neg small]
          have top : ack.toNat = 65535 := by omega
          refine iff_of_true rfl ⟨top, x, rfl, ?_⟩
          rw [top] at final
          exact fun both => final ⟨both.1, both.2.symm⟩

theorem acknowledge_ok_iff {d : Datagram} (own : c.myIp.length = 4) (other : d.srcIp.length = 4)
    (port : d.sp < 65536) :
    (∃ s', acknowledge c s d = .ok s') ↔ ¬ Unanswerable s d := by
  by_cases short : d.pl.length < 4
  · have raises : acknowledge c s d = .error .indexError := by
      refine index_bind_eq_error ?_
      rw [index_of_le (by omega)]
      rfl
    rw [raises]
    exact iff_of_false (by rintro ⟨s', run⟩; cases run) (not_not_intro (.inl short))
  · have step := acknowledge_eq s own other port (not_lt.mp short)
    dsimp only at step
    have raised := raised_ack_iff (s.xfers d.key) (ackOf d.pl)
    rw [toNat_ackOf] at raised
    rw [Unanswerable, or_iff_right short, ← raised]
    split at step
    · rename_i top
      rw [step]
      exact iff_of_false (by rintro ⟨s', run⟩; cases run) (not_not_intro top)
    · rename_i goesOn
      obtain ⟨sent, step, -⟩ := step
      exact iff_of_true ⟨_, step⟩ goesOn

/-- A round of the loop returns unless the frame is one of those that end the server. -/
theorem iterate_ok_iff (files : Text → Option (List Byte)) :
    (∃ s', iterate c files s frame = .ok s') ↔ ¬ Raises c s frame := by
  by_cases forUs : ForUs c frame
  case neg =>
    refine iff_of_true ⟨s, ?_⟩ fun raises => forUs raises.1
    rw [iterate, datagram_of_not_forUs forUs]
    rfl
  rw [iterate, datagram_of_forUs forUs]
  by_cases short : frame.length < 40
  · rw [if_pos short]
    exact iff_of_false (by rintro ⟨s', run⟩; cases run) (not_not_intro ⟨forUs, .inl short⟩)
  rw [if_neg short]
  by_cases tftp : destPort frame = 69 ∨ sourcePort frame = 69
  case neg =>
    rw [if_neg tftp]
    exact iff_of_true ⟨s, rfl⟩ fun raises => tftp (raises.2.resolve_left short).1
  have long := forUs.long
  have own : c.myIp.length = 4 := by
    rw [← forUs.dst, length_slice]
    omega
  have other : (received frame).srcIp.length = 4 := by
    change (slice frame 26 30).length = 4
    rw [length_slice]
    omega
  have port : (received frame).sp < 65536 := bigEndian_lt _ _
  rw [if_pos tftp, ok_bind]
  change (∃ s', (opcode (payload frame) >>= fun op =>
    if op = 1 then readRequest c files s (received frame)
    else if op = 4 then acknowledge c s (received frame) else pure s) = .ok s') ↔ _
  rw [opcode_eq, ok_bind]
  by_cases two : 2 ≤ (payload frame).length
  case neg =>
    rw [if_neg two]
    exact iff_of_true ⟨s, rfl⟩ fun raises => two (raises.2.resolve_left short).2.1
  rw [if_pos two]
  by_cases request : halfAt (payload frame) 0 = 1
  · rw [if_pos request]
    refine iff_of_true (readRequest_ok files s own other port) fun raises => ?_
    have isAck := (raises.2.resolve_left short).2.2.1
    omega
  rw [if_neg request]
  by_cases isAck : halfAt (payload frame) 0 = 4
  case neg =>
    rw [if_neg isAck]
    exact iff_of_true ⟨s, rfl⟩ fun raises => isAck (raises.2.resolve_left short).2.2.1
  rw [if_pos isAck, acknowledge_ok_iff own other port, not_iff_not]
  exact ⟨fun bad => ⟨forUs, .inr ⟨tftp, two, isAck, bad⟩⟩,
    fun raises => (raises.2.resolve_left short).2.2.2⟩

/-- The server receives every frame of a run exactly when none of them, at its time, is one of
those that end it. -/
theorem serve_ok_iff (c : Config) (frames : List ((Text → Option (List Byte)) × List Byte)) :
    (∃ s, serve c frames = .ok s) ↔
      ∀ before r after, frames = before ++ r :: after →
        ∀ s, serve c before = .ok s → ¬ Raises c s r.2 := by
  have step (before : List ((Text → Option (List Byte)) × List Byte))
      (r : (Text → Option (List Byte)) × List Byte) :
      serve c (before ++ [r]) = serve c before >>= fun s => iterate c r.1 s r.2 := by
    rw [serve, List.foldlM_append, ← serve]
    exact congrArg _ (funext fun s => List.foldlM_cons.trans (bind_pure _))
  constructor
  · rintro ⟨last, run⟩ before r after rfl s reached
    rw [List.append_cons, serve, List.foldlM_append, ← serve, step, reached, ok_bind] at run
    refine (iterate_ok_iff r.1).mp ?_
    cases next : iterate c r.1 s r.2 with
    | ok s' => exact ⟨s', rfl⟩
    | error e =>
        rw [next] at run
        cases run
  · intro fine
    induction frames using List.reverseRecOn with
    | nil => exact ⟨_, rfl⟩
    | append_singleton before r ih =>
        obtain ⟨s, run⟩ := ih fun earlier r' later parts => fine earlier r' (later ++ [r])
          (by rw [parts, List.append_assoc, List.cons_append])
        rw [step, run, ok_bind]
        exact (iterate_ok_iff r.1).mpr (fine before r [] rfl s run)

/-- A frame of UDP from a client to port 69 of the server at 10.0.0.1. -/
def frameOf (udp : List Byte) : List Byte :=
  [2, 0, 0, 0, 0, 1, 2, 0, 0, 0, 0, 2, 8, 0, 0x45, 0, 0, 0, 0, 0, 0, 0, 64, 17, 0, 0,
    10, 0, 0, 2, 10, 0, 0, 1] ++ udp

def Config.sample : Config := ⟨[2, 0, 0, 0, 0, 1], [10, 0, 0, 1], "/tmp/tftproot".toList⟩

/-- A datagram without its header, an acknowledgement of two bytes, and block 65535
acknowledged after a read request for a file that is there. -/
theorem serve_raises :
    serve .sample [(fun _ => none, frameOf [])] = .error .indexError ∧
      serve .sample [(fun _ => none, frameOf [4, 0, 0, 69, 0, 10, 0, 0, 0, 4])] =
        .error .indexError ∧
      serve .sample [(fun _ => some [], frameOf [4, 0, 0, 69, 0, 12, 0, 0, 0, 1, 97, 0]),
        (fun _ => some [], frameOf [4, 0, 0, 69, 0, 12, 0, 0, 0, 4, 255, 255])] =
        .error .structError := by
  refine ⟨rfl, rfl, ?_⟩
  with_unfolding_all rfl

end Runs

end Ncd15.Tftp.Raw
