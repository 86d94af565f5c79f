import Ncd15.Library.StopAndWait
import Ncd15.Tftp.Packets

/-!
# Writing a file

`serve_wrq` against a client, over the network of the read transfer.  Here the
client is the sender: it learns the block size from the answer to its request and
sends the next block when the current one is acknowledged.
-/

namespace Ncd15.Tftp

open Ncd15.Library

section Server

/-- The variables of `serve_wrq`, with all that has been sent.  `written` is the
contents of the file, of `total` bytes. -/
structure Wrq where
  blksize : Nat
  expected : Nat
  pkt : Packet
  attempt : Nat
  written : List Byte
  status : Status
  wire : List Packet

def Wrq.send (s : Wrq) (pkt : Packet) : Wrq := { s with wire := pkt :: s.wire }

/-- The block that is expected: it is written and acknowledged. -/
def Wrq.accept (s : Wrq) (blk : Half) (payload : List Byte) : Wrq :=
  let s := { s with written := s.written ++ payload, pkt := .ack blk }.send (.ack blk)
  if payload.length < s.blksize then { s with status := .done }
  else { s with expected := s.expected + 1 }

/-- A packet arrives; `recvfrom` cuts it after `blksize` bytes of payload. -/
def Wrq.recv (s : Wrq) (p : Packet) : Wrq :=
  if s.status ≠ .running then s
  else
    match p with
    | .err _ _ => { s with status := .returned }
    | .data blk payload =>
        if blk ≠ BitVec.ofNat 16 s.expected then
          { s with attempt := 0 }.send (.ack (BitVec.ofNat 16 (s.expected - 1)))
        else { s with attempt := 0 }.accept blk (payload.take s.blksize)
    | .ack _ => { s with attempt := 0 }
    | .oack _ => { s with attempt := 0 }

/-- `recvfrom` times out; the fifth time in a row is the last. -/
def Wrq.timeout (s : Wrq) : Wrq :=
  if s.status ≠ .running then s
  else if s.attempt + 1 < 5 then { s with attempt := s.attempt + 1 }.send s.pkt
  else { s with status := .returned }.send s.pkt

/-- The first packet of `serve_wrq`. -/
def wrqAnswer (r : Request) : Packet :=
  if r.writeOpts ≠ [] then .oack r.writeOpts else .ack 0

/-- `serve_wrq` with the file open, up to the first `recvfrom`. -/
def serveWrq (r : Request) : Wrq where
  blksize := r.blksize
  expected := 1
  pkt := wrqAnswer r
  attempt := 0
  written := []
  status := .running
  wire := [wrqAnswer r]

end Server

section Client

/-- A client that uploads `data`.  Block 0 stands for the request. -/
structure WriteClient where
  data : List Byte
  blksize : Nat
  current : Nat
  finished : Bool
  wire : List Packet

/-- The client has sent its request. -/
def WriteClient.start (data : List Byte) : WriteClient := ⟨data, 512, 0, false, []⟩

/-- The next block. -/
def WriteClient.sendBlock (c : WriteClient) : WriteClient :=
  { c with
    current := c.current + 1
    wire := .data (BitVec.ofNat 16 (c.current + 1)) (block c.blksize c.data (c.current + 1)) ::
      c.wire }

/-- The current block has been acknowledged. -/
def WriteClient.acked (c : WriteClient) : WriteClient :=
  if c.current ≠ 0 ∧ (block c.blksize c.data c.current).length < c.blksize then
    { c with finished := true }
  else c.sendBlock

def WriteClient.recv (c : WriteClient) (p : Packet) : WriteClient :=
  match p with
  | .oack opts =>
      if c.current = 0 then { c with blksize := agreedBlksize opts }.acked else c
  | .ack blk =>
      if c.finished = false ∧ blk = BitVec.ofNat 16 c.current then c.acked else c
  | .data _ _ => c
  | .err _ _ => c

/-- The client gives up with an error packet. -/
def WriteClient.abort (c : WriteClient) (code : Half) (msg : List Byte) : WriteClient :=
  { c with wire := .err code msg :: c.wire }

/-- The runs of a server and a client that uploads `data`. -/
inductive WriteRun (r : Request) (data : List Byte) : Wrq → WriteClient → Prop
  | start : WriteRun r data (serveWrq r) (WriteClient.start data)
  | toServer {s : Wrq} {c : WriteClient} {p : Packet} (run : WriteRun r data s c)
      (sent : p ∈ c.wire) : WriteRun r data (s.recv p) c
  | toClient {s : Wrq} {c : WriteClient} {p : Packet} (run : WriteRun r data s c)
      (sent : p ∈ s.wire) : WriteRun r data s (c.recv p)
  | timeout {s : Wrq} {c : WriteClient} (run : WriteRun r data s c) :
      WriteRun r data s.timeout c
  | abort {s : Wrq} {c : WriteClient} (run : WriteRun r data s c) (code : Half)
      (msg : List Byte) : WriteRun r data s (c.abort code msg)

end Client

section Refinement

variable {r : Request} {data : List Byte} {s : Wrq} {c : WriteClient}
  {a : StopAndWait (List Byte)}

/-- The transfer is the stop-and-wait protocol for the blocks of the upload. -/
structure WriteRefines (r : Request) (data : List Byte) (s : Wrq) (c : WriteClient)
    (a : StopAndWait (List Byte)) : Prop where
  reached : StopAndWait.Reached (block r.blksize data) a
  sameBlksize : s.blksize = r.blksize
  sameData : c.data = data
  current : c.current = a.sent
  last : a.sent ≤ lastBlock r.blksize data
  agreed : c.current ≠ 0 → c.blksize = r.blksize
  plain : c.current = 0 → c.blksize = 512
  expected : s.status ≠ .done → s.expected = a.accepted.length + 1
  written : s.written = a.accepted.flatten
  pktSent : s.pkt ∈ s.wire
  wire : ∀ blk payload, .data blk payload ∈ c.wire → (blk.toNat, payload) ∈ a.onWire
  acks : ∀ blk, .ack blk ∈ s.wire → blk.toNat ∈ a.acked
  oacks : ∀ opts, .oack opts ∈ s.wire → agreedBlksize opts = r.blksize ∧ 0 ∈ a.acked
  optionless : c.current = 0 → ∀ blk, .ack blk ∈ s.wire → r.blksize = 512
  done : s.status = .done → a.accepted.length = lastBlock r.blksize data

theorem WriteRefines.small (refines : WriteRefines r data s c a)
    (few : lastBlock r.blksize data < 65535) : a.accepted.length + 1 < 65536 := by
  have behind := (StopAndWait.safe_of_reached refines.reached).behind
  have last := refines.last
  omega

theorem WriteRefines.returned (refines : WriteRefines r data s c a)
    (running : s.status = .running) :
    WriteRefines r data { s with status := .returned } c a :=
  { refines with
    expected := fun _ => refines.expected (by simp [running])
    done := nofun }

theorem WriteRefines.restarted (refines : WriteRefines r data s c a) (attempt : Nat) :
    WriteRefines r data { s with attempt } c a :=
  { refines with }

theorem WriteRefines.sendAck (refines : WriteRefines r data s c a) {blk : Half}
    (taken : blk.toNat ≤ a.accepted.length) (begun : c.current ≠ 0) :
    WriteRefines r data (s.send (.ack blk)) c { a with acked := insert blk.toNat a.acked } := by
  refine { refines with
    reached := refines.reached.step (.ack taken)
    pktSent := List.mem_cons_of_mem _ refines.pktSent
    acks := ?_, oacks := ?_, optionless := fun idle => absurd idle begun }
  · intro other member
    rcases List.mem_cons.mp member with same | earlier
    · rw [Packet.ack.inj same]
      exact Set.mem_insert _ _
    · exact Set.mem_insert_of_mem _ (refines.acks other earlier)
  · intro opts member
    rcases List.mem_cons.mp member with same | earlier
    · cases same
    · exact ⟨(refines.oacks opts earlier).1, Set.mem_insert_of_mem _ (refines.oacks opts earlier).2⟩

theorem WriteRefines.resend (refines : WriteRefines r data s c a) :
    WriteRefines r data (s.send s.pkt) c a := by
  refine { refines with
    pktSent := List.mem_cons_self, acks := ?_, oacks := ?_, optionless := ?_ }
  · intro blk member
    rcases List.mem_cons.mp member with same | earlier
    · exact refines.acks blk (same ▸ refines.pktSent)
    · exact refines.acks blk earlier
  · intro opts member
    rcases List.mem_cons.mp member with same | earlier
    · exact refines.oacks opts (same ▸ refines.pktSent)
    · exact refines.oacks opts earlier
  · intro idle blk member
    rcases List.mem_cons.mp member with same | earlier
    · exact refines.optionless idle blk (same ▸ refines.pktSent)
    · exact refines.optionless idle blk earlier

theorem WriteRefines.accept (refines : WriteRefines r data s c a)
    (running : s.status = .running) {blk : Half} {payload : List Byte}
    (arrived : (blk.toNat, payload) ∈ a.onWire) (next : blk.toNat = a.accepted.length + 1) :
    ∃ a', WriteRefines r data (s.accept blk payload) c a' := by
  have safe := StopAndWait.safe_of_reached refines.reached
  obtain ⟨first, sent, same⟩ := safe.wire _ _ arrived
  have begun : c.current ≠ 0 := by
    rw [refines.current]
    omega
  rw [next] at arrived
  have taken : WriteRefines r data
      { s with written := s.written ++ payload, expected := s.expected + 1 } c
      { a with accepted := a.accepted ++ [payload] } :=
    { refines with
      reached := refines.reached.step (.accept arrived)
      expected := fun _ => by simp [refines.expected (by simp [running])]
      written := by simp [refines.written]
      done := fun done => absurd (running.symm.trans done) (by decide) }
  have number : blk.toNat ≤ (a.accepted ++ [payload]).length := by
    simp [next]
  have acked := taken.sendAck number begun
  have length : payload.length < r.blksize ↔ a.accepted.length + 1 = lastBlock r.blksize data := by
    rw [same, length_block_lt_iff (blksize_pos r) first (sent.trans refines.last), next]
  unfold Wrq.accept
  dsimp only
  split
  case isTrue short =>
    have short : payload.length < s.blksize := short
    rw [refines.sameBlksize, length] at short
    exact ⟨_, { acked with
      pktSent := List.mem_cons_self
      expected := fun notDone => absurd rfl notDone
      done := fun _ => by simp [short] }⟩
  case isFalse => exact ⟨_, { acked with pktSent := List.mem_cons_self }⟩

theorem WriteRefines.recv (refines : WriteRefines r data s c a)
    (few : lastBlock r.blksize data < 65535) {p : Packet} (sent : p ∈ c.wire) :
    ∃ a', WriteRefines r data (s.recv p) c a' := by
  unfold Wrq.recv
  split
  case isTrue => exact ⟨a, refines⟩
  case isFalse running =>
    have running := not_not.mp running
    have expected := refines.expected (by simp [running])
    cases p with
    | err code msg => exact ⟨a, refines.returned running⟩
    | ack blk => exact ⟨a, refines.restarted 0⟩
    | oack opts => exact ⟨a, refines.restarted 0⟩
    | data blk payload =>
        have arrived := refines.wire blk payload sent
        obtain ⟨first, bound, same⟩ :=
          (StopAndWait.safe_of_reached refines.reached).wire _ _ arrived
        have begun : c.current ≠ 0 := by
          rw [refines.current]
          omega
        dsimp only
        split
        case isTrue =>
          have number : (BitVec.ofNat 16 (s.expected - 1)).toNat = a.accepted.length := by
            rw [expected, Nat.add_sub_cancel]
            exact toNat_ofNat_small (Nat.lt_of_succ_lt (refines.small few))
          exact ⟨_, (refines.restarted 0).sendAck number.le begun⟩
        case isFalse next =>
          have whole : payload.take s.blksize = payload := by
            rw [refines.sameBlksize, same]
            exact List.take_of_length_le (length_block_le _)
          rw [whole]
          refine (refines.restarted 0).accept running arrived ?_
          rw [not_not.mp next, expected]
          exact toNat_ofNat_small (refines.small few)

theorem WriteRefines.timeout (refines : WriteRefines r data s c a) :
    WriteRefines r data s.timeout c a := by
  unfold Wrq.timeout
  split
  case isTrue => exact refines
  case isFalse running =>
    have running := not_not.mp running
    split
    case isTrue => exact (refines.restarted _).resend
    case isFalse => exact (refines.returned running).resend

theorem WriteRefines.sendBlock (refines : WriteRefines r data s c a)
    (few : lastBlock r.blksize data < 65535) (arrived : a.sent ∈ a.acked)
    (more : a.sent < lastBlock r.blksize data) :
    WriteRefines r data s { c with blksize := r.blksize }.sendBlock
      (a.advance (block r.blksize data)) := by
  refine { refines with
    reached := refines.reached.step (.advance arrived)
    current := congrArg (· + 1) refines.current
    last := more
    agreed := fun _ => rfl
    plain := nofun
    optionless := nofun
    wire := ?_ }
  intro blk payload member
  rcases List.mem_cons.mp member with same | earlier
  · obtain ⟨rfl, rfl⟩ := Packet.data.inj same
    have number : (BitVec.ofNat 16 (c.current + 1)).toNat = a.sent + 1 := by
      rw [refines.current]
      exact toNat_ofNat_small (by omega)
    change ((BitVec.ofNat 16 (c.current + 1)).toNat, block r.blksize c.data (c.current + 1)) ∈ _
    rw [number, refines.sameData, refines.current]
    exact Set.mem_insert _ _
  · exact Set.mem_insert_of_mem _ (refines.wire blk payload earlier)

theorem WriteRefines.acked (refines : WriteRefines r data s c a)
    (few : lastBlock r.blksize data < 65535) (arrived : a.sent ∈ a.acked)
    (agreed : c.blksize = r.blksize) : ∃ a', WriteRefines r data s c.acked a' := by
  unfold WriteClient.acked
  split
  case isTrue => exact ⟨a, { refines with }⟩
  case isFalse full =>
    have more : a.sent < lastBlock r.blksize data := by
      refine Nat.lt_of_le_of_ne refines.last fun atLast => full ?_
      have begun : a.sent ≠ 0 := by
        rw [atLast]
        exact Nat.succ_ne_zero _
      rw [refines.current, refines.sameData, agreed]
      exact ⟨begun, (length_block_lt_iff (blksize_pos r) (Nat.one_le_iff_ne_zero.mpr begun)
        refines.last).mpr atLast⟩
    have same : c = { c with blksize := r.blksize } := by
      rw [← agreed]
    rw [same]
    exact ⟨_, refines.sendBlock few arrived more⟩

/-- The answer to the options starts the upload. -/
theorem WriteRefines.begin (refines : WriteRefines r data s c a)
    (few : lastBlock r.blksize data < 65535) {opts : List (String × Int)}
    (sent : .oack opts ∈ s.wire) (idle : c.current = 0) :
    ∃ a', WriteRefines r data s { c with blksize := agreedBlksize opts }.acked a' := by
  obtain ⟨agreed, arrived⟩ := refines.oacks opts sent
  have begins : ¬ (c.current ≠ 0 ∧
      (block (agreedBlksize opts) c.data c.current).length < agreedBlksize opts) :=
    fun begun => begun.1 idle
  have none : a.sent = 0 := refines.current.symm.trans idle
  unfold WriteClient.acked
  rw [if_neg begins, agreed]
  exact ⟨_, refines.sendBlock few (none ▸ arrived) (none ▸ Nat.succ_pos _)⟩

theorem WriteRefines.clientRecv (refines : WriteRefines r data s c a)
    (few : lastBlock r.blksize data < 65535) {p : Packet} (sent : p ∈ s.wire) :
    ∃ a', WriteRefines r data s (c.recv p) a' := by
  unfold WriteClient.recv
  cases p with
  | data blk payload => exact ⟨a, refines⟩
  | err code msg => exact ⟨a, refines⟩
  | oack opts =>
      dsimp only
      split
      case isTrue idle => exact refines.begin few sent idle
      case isFalse => exact ⟨a, refines⟩
  | ack blk =>
      dsimp only
      split
      case isFalse => exact ⟨a, refines⟩
      case isTrue current =>
        have agreed : c.blksize = r.blksize := by
          by_cases idle : c.current = 0
          · rw [refines.plain idle, refines.optionless idle blk sent]
          · exact refines.agreed idle
        have arrived := refines.acks blk sent
        rw [current.2, refines.current, toNat_ofNat_small
          (Nat.lt_of_le_of_lt refines.last (Nat.lt_succ_of_lt few))] at arrived
        exact refines.acked few arrived agreed

theorem writeRefines_start (r : Request) (data : List Byte) :
    WriteRefines r data (serveWrq r) (WriteClient.start data)
      { StopAndWait.start with acked := insert 0 ∅ } where
  reached := StopAndWait.Reached.step .refl (.ack (Nat.zero_le _))
  sameBlksize := rfl
  sameData := rfl
  current := rfl
  last := Nat.zero_le _
  agreed begun := absurd rfl begun
  plain _ := rfl
  expected _ := rfl
  written := rfl
  pktSent := List.mem_cons_self
  wire := nofun
  acks blk member := by
    have same := List.mem_singleton.mp member
    unfold wrqAnswer at same
    split at same
    · cases same
    · rw [Packet.ack.inj same]
      exact Set.mem_insert _ _
  oacks opts member := by
    have same := List.mem_singleton.mp member
    unfold wrqAnswer at same
    split at same
    · rw [Packet.oack.inj same]
      exact ⟨agreedBlksize_writeOpts r, Set.mem_insert _ _⟩
    · cases same
  optionless _ blk member := by
    have same := List.mem_singleton.mp member
    unfold wrqAnswer at same
    split at same
    case isTrue => cases same
    case isFalse none => exact blksize_of_writeOpts_nil (not_not.mp none)
  done := nofun

/-- Every run is a run of the stop-and-wait protocol. -/
theorem writeRefines_of_run (few : lastBlock r.blksize data < 65535) (run : WriteRun r data s c) :
    ∃ a, WriteRefines r data s c a := by
  induction run with
  | start => exact ⟨_, writeRefines_start r data⟩
  | toServer run sent ih =>
      obtain ⟨a, refines⟩ := ih
      exact refines.recv few sent
  | toClient run sent ih =>
      obtain ⟨a, refines⟩ := ih
      exact refines.clientRecv few sent
  | timeout run ih =>
      obtain ⟨a, refines⟩ := ih
      exact ⟨a, refines.timeout⟩
  | abort run code msg ih =>
      obtain ⟨a, refines⟩ := ih
      refine ⟨a, { refines with wire := fun blk payload member => ?_ }⟩
      rcases List.mem_cons.mp member with same | earlier
      · cases same
      · exact refines.wire blk payload earlier

/-- The file holds the first blocks of the upload at every moment, and all of it
when the server reports that it has written it. -/
theorem write_safe (r : Request) (data : List Byte) (few : lastBlock r.blksize data < 65535)
    {s : Wrq} {c : WriteClient} (run : WriteRun r data s c) :
    (∃ k, s.written = firstBlocks r.blksize data k) ∧ (s.status = .done → s.written = data) := by
  obtain ⟨a, refines⟩ := writeRefines_of_run few run
  have safe := StopAndWait.safe_of_reached refines.reached
  have written : s.written = firstBlocks r.blksize data a.accepted.length :=
    refines.written.trans (flatten_accepted _ _ safe.accepted)
  refine ⟨⟨_, written⟩, fun done => ?_⟩
  rw [written, refines.done done]
  exact firstBlocks_lastBlock (blksize_pos r)

theorem write_safe_oneBlock :
    ((serveWrq ⟨fun _ => none, fun _ => none⟩).recv (.data 1 [1, 2, 3])).status = .done ∧
      ((serveWrq ⟨fun _ => none, fun _ => none⟩).recv (.data 1 [1, 2, 3])).written =
        [1, 2, 3] := by
  have run : WriteRun ⟨fun _ => none, fun _ => none⟩ [1, 2, 3]
      ((serveWrq ⟨fun _ => none, fun _ => none⟩).recv (.data 1 [1, 2, 3]))
      ((WriteClient.start [1, 2, 3]).recv (.ack 0)) :=
    .toServer (.toClient .start List.mem_cons_self) List.mem_cons_self
  exact ⟨rfl, (write_safe _ _ (by decide) run).2 rfl⟩

end Refinement

end Ncd15.Tftp
