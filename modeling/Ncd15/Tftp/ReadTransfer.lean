import Ncd15.Library.Blocks
import Ncd15.Library.StopAndWait
import Ncd15.Tftp.Packets

/-!
# Reading a file

`serve_rrq` against a client, over a network that may deliver any packet of the
transfer at any later moment, any number of times or never.  A packet that is
sent again is one that may be delivered again, so that only the server's
retransmissions, which it counts, are steps.
-/

namespace Ncd15.Tftp

open Ncd15.Library

section Server

/-- The variables of `serve_rrq` and of its call of `_send_await_ack`, with all that
has been sent.  Block 0 stands for the option acknowledgement. -/
structure Rrq where
  file : List Byte
  blksize : Nat
  pos : Nat
  blocknum : Nat
  data : List Byte
  pkt : Packet
  expectedBlock : Half
  attempt : Nat
  status : Status
  wire : List Packet

/-- A call of `_send_await_ack`, up to its first `recvfrom`. -/
def Rrq.sendAwaitAck (s : Rrq) (pkt : Packet) (expectedBlock : Half) : Rrq :=
  { s with pkt, expectedBlock, attempt := 0, wire := pkt :: s.wire }

/-- A round of the loop of `serve_rrq`, up to the wait for its acknowledgement. -/
def Rrq.sendBlock (s : Rrq) (blocknum : Nat) : Rrq :=
  let data := (s.file.drop s.pos).take s.blksize
  { s with pos := s.pos + data.length, blocknum, data }.sendAwaitAck
    (.data (BitVec.ofNat 16 blocknum) data) (BitVec.ofNat 16 blocknum)

/-- `_send_await_ack` has returned `True`. -/
def Rrq.acked (s : Rrq) : Rrq :=
  if s.blocknum ≠ 0 ∧ s.data.length < s.blksize then { s with status := .done }
  else s.sendBlock (s.blocknum + 1)

/-- A packet arrives. -/
def Rrq.recv (s : Rrq) (p : Packet) : Rrq :=
  if s.status ≠ .running then s
  else
    match p with
    | .ack blk => if blk = s.expectedBlock then s.acked else s
    | .err _ _ => { s with status := .returned }
    | .data _ _ => s
    | .oack _ => s

/-- `recvfrom` times out. -/
def Rrq.timeout (s : Rrq) : Rrq :=
  if s.status ≠ .running then s
  else if s.attempt + 1 < 5 then { s with attempt := s.attempt + 1, wire := s.pkt :: s.wire }
  else { s with status := .returned }

/-- `serve_rrq` with the file open and nothing sent. -/
def openRrq (r : Request) (file : List Byte) : Rrq where
  file := file
  blksize := r.blksize
  pos := 0
  blocknum := 0
  data := []
  pkt := .oack (r.readOpts file.length)
  expectedBlock := 0
  attempt := 0
  status := .running
  wire := []

/-- `serve_rrq` up to the first `recvfrom`. -/
def serveRrq (r : Request) (file : List Byte) : Rrq :=
  if r.readOpts file.length ≠ [] then
    (openRrq r file).sendAwaitAck (.oack (r.readOpts file.length)) 0
  else (openRrq r file).sendBlock 1

end Server

section Client

/-- A client that reads a file. -/
structure ReadClient where
  blksize : Nat
  accepted : Nat
  data : List Byte
  finished : Bool
  wire : List Packet

/-- The client has sent its request. -/
def ReadClient.start : ReadClient := ⟨512, 0, [], false, []⟩

/-- The client takes the block that comes next and acknowledges it. -/
def ReadClient.recv (c : ReadClient) (p : Packet) : ReadClient :=
  match p with
  | .oack opts =>
      if c.accepted = 0 then
        { c with blksize := agreedBlksize opts, wire := .ack 0 :: c.wire }
      else c
  | .data blk payload =>
      if c.finished = false ∧ blk = BitVec.ofNat 16 (c.accepted + 1) then
        { c with
          accepted := c.accepted + 1
          data := c.data ++ payload
          finished := payload.length < c.blksize
          wire := .ack blk :: c.wire }
      else c
  | .ack _ => c
  | .err _ _ => c

/-- The client gives up with an error packet. -/
def ReadClient.abort (c : ReadClient) (code : Half) (msg : List Byte) : ReadClient :=
  { c with wire := .err code msg :: c.wire }

/-- The runs of a server and a client. -/
inductive ReadRun (r : Request) (file : List Byte) : Rrq → ReadClient → Prop
  | start : ReadRun r file (serveRrq r file) ReadClient.start
  | toServer {s : Rrq} {c : ReadClient} {p : Packet} (run : ReadRun r file s c)
      (sent : p ∈ c.wire) : ReadRun r file (s.recv p) c
  | toClient {s : Rrq} {c : ReadClient} {p : Packet} (run : ReadRun r file s c)
      (sent : p ∈ s.wire) : ReadRun r file s (c.recv p)
  | timeout {s : Rrq} {c : ReadClient} (run : ReadRun r file s c) : ReadRun r file s.timeout c
  | abort {s : Rrq} {c : ReadClient} (run : ReadRun r file s c) (code : Half)
      (msg : List Byte) : ReadRun r file s (c.abort code msg)

end Client

section Refinement

variable {r : Request} {file : List Byte} {s : Rrq} {c : ReadClient}

/-- The transfer is the stop-and-wait protocol for the blocks of the file. -/
structure ReadRefines (r : Request) (file : List Byte) (s : Rrq) (c : ReadClient)
    (a : StopAndWait (List Byte)) : Prop where
  reached : StopAndWait.Reached (block r.blksize file) a
  sameFile : s.file = file
  sameBlksize : s.blksize = r.blksize
  blocknum : s.blocknum = a.sent
  last : a.sent ≤ lastBlock r.blksize file
  pos : s.pos = min (r.blksize * a.sent) file.length
  data : a.sent ≠ 0 → s.data = block r.blksize file a.sent
  expected : s.expectedBlock = BitVec.ofNat 16 a.sent
  pkt : ∀ blk payload, s.pkt = .data blk payload → (blk.toNat, payload) ∈ a.onWire
  wire : ∀ blk payload, .data blk payload ∈ s.wire → (blk.toNat, payload) ∈ a.onWire
  acks : ∀ blk, .ack blk ∈ c.wire → blk.toNat ∈ a.acked
  accepted : c.accepted = a.accepted.length
  received : c.data = a.accepted.flatten
  done : s.status = .done → a.sent = lastBlock r.blksize file ∧ a.sent ∈ a.acked

variable {a : StopAndWait (List Byte)}

theorem ReadRefines.sendBlock (refines : ReadRefines r file s c a)
    (few : lastBlock r.blksize file < 65535) (arrived : a.sent ∈ a.acked)
    (more : a.sent < lastBlock r.blksize file) (running : s.status = .running) :
    ReadRefines r file (s.sendBlock (s.blocknum + 1)) c (a.advance (block r.blksize file)) := by
  obtain ⟨low, -⟩ := lastBlock_bounds file (blksize_pos r)
  have within : r.blksize * a.sent ≤ file.length :=
    (Nat.mul_le_mul_left _ (Nat.le_sub_one_of_lt more)).trans low
  have pos : s.pos = r.blksize * a.sent := by
    rw [refines.pos, Nat.min_eq_left within]
  have data : (s.file.drop s.pos).take s.blksize = block r.blksize file (a.sent + 1) := by
    rw [refines.sameFile, refines.sameBlksize, pos]
    rfl
  have number : (BitVec.ofNat 16 (s.blocknum + 1)).toNat = a.sent + 1 := by
    rw [refines.blocknum]
    exact toNat_ofNat_small (by omega)
  have onWire : ∀ blk payload,
      Packet.data (BitVec.ofNat 16 (s.blocknum + 1)) (block r.blksize file (a.sent + 1)) =
        .data blk payload → (blk.toNat, payload) ∈ (a.advance (block r.blksize file)).onWire := by
    intro blk payload same
    obtain ⟨rfl, rfl⟩ := Packet.data.inj same
    rw [number]
    exact Set.mem_insert _ _
  unfold Rrq.sendBlock Rrq.sendAwaitAck
  rw [data]
  constructor
  case reached => exact refines.reached.step (.advance arrived)
  case sameFile => exact refines.sameFile
  case sameBlksize => exact refines.sameBlksize
  case blocknum => exact congrArg (· + 1) refines.blocknum
  case last => exact more
  case pos =>
    change s.pos + (block r.blksize file (a.sent + 1)).length =
      min (r.blksize * (a.sent + 1)) file.length
    rw [pos, length_block, Nat.add_sub_cancel, Nat.mul_succ]
    omega
  case data => exact fun _ => rfl
  case expected =>
    change BitVec.ofNat 16 (s.blocknum + 1) = BitVec.ofNat 16 (a.sent + 1)
    rw [refines.blocknum]
  case pkt => exact onWire
  case wire =>
    intro blk payload member
    rcases List.mem_cons.mp member with same | earlier
    · exact onWire blk payload same.symm
    · exact Set.mem_insert_of_mem _ (refines.wire blk payload earlier)
  case acks => exact refines.acks
  case accepted => exact refines.accepted
  case received => exact refines.received
  case done =>
    intro done
    exact absurd (running.symm.trans done) (by decide)

theorem ReadRefines.acked (refines : ReadRefines r file s c a)
    (few : lastBlock r.blksize file < 65535) (running : s.status = .running)
    (arrived : a.sent ∈ a.acked) : ∃ a', ReadRefines r file s.acked c a' := by
  unfold Rrq.acked
  split
  case isTrue short =>
    obtain ⟨begun, short⟩ := short
    rw [refines.blocknum] at begun
    rw [refines.data begun, refines.sameBlksize,
      length_block_lt_iff (blksize_pos r) (Nat.one_le_iff_ne_zero.mpr begun) refines.last] at short
    exact ⟨a, { refines with done := fun _ => ⟨short, arrived⟩ }⟩
  case isFalse full =>
    have more : a.sent < lastBlock r.blksize file := by
      refine Nat.lt_of_le_of_ne refines.last fun atLast => full ?_
      have begun : a.sent ≠ 0 := by
        rw [atLast]
        exact Nat.succ_ne_zero _
      rw [refines.blocknum, refines.data begun, refines.sameBlksize]
      exact ⟨begun, (length_block_lt_iff (blksize_pos r) (Nat.one_le_iff_ne_zero.mpr begun)
        refines.last).mpr atLast⟩
    exact ⟨_, refines.sendBlock few arrived more running⟩

theorem ReadRefines.returned (refines : ReadRefines r file s c a) :
    ReadRefines r file { s with status := .returned } c a :=
  { refines with done := nofun }

theorem ReadRefines.recv (refines : ReadRefines r file s c a)
    (few : lastBlock r.blksize file < 65535) {p : Packet} (sent : p ∈ c.wire) :
    ∃ a', ReadRefines r file (s.recv p) c a' := by
  unfold Rrq.recv
  split
  case isTrue => exact ⟨a, refines⟩
  case isFalse running =>
    have running := not_not.mp running
    cases p with
    | ack blk =>
        dsimp only
        split
        case isTrue same =>
          have number := refines.acks blk sent
          rw [same, refines.expected,
            toNat_ofNat_small (Nat.lt_of_le_of_lt refines.last (Nat.lt_succ_of_lt few))] at number
          exact refines.acked few running number
        case isFalse => exact ⟨a, refines⟩
    | err code msg => exact ⟨a, refines.returned⟩
    | data blk payload => exact ⟨a, refines⟩
    | oack opts => exact ⟨a, refines⟩

theorem ReadRefines.timeout (refines : ReadRefines r file s c a) :
    ReadRefines r file s.timeout c a := by
  unfold Rrq.timeout
  split
  case isTrue => exact refines
  case isFalse running =>
    split
    case isTrue =>
      refine { refines with wire := ?_ }
      intro blk payload member
      rcases List.mem_cons.mp member with same | earlier
      · exact refines.pkt blk payload same.symm
      · exact refines.wire blk payload earlier
    case isFalse => exact refines.returned

theorem ReadRefines.clientAck (refines : ReadRefines r file s c a) {blk : Half}
    (taken : blk.toNat ≤ a.accepted.length) (blksize : Nat) :
    ReadRefines r file s { c with blksize, wire := .ack blk :: c.wire }
      { a with acked := insert blk.toNat a.acked } := by
  refine { refines with reached := refines.reached.step (.ack taken), acks := ?_, done := ?_ }
  · intro other member
    rcases List.mem_cons.mp member with same | earlier
    · rw [Packet.ack.inj same]
      exact Set.mem_insert _ _
    · exact Set.mem_insert_of_mem _ (refines.acks other earlier)
  · intro done
    exact ⟨(refines.done done).1, Set.mem_insert_of_mem _ (refines.done done).2⟩

theorem ReadRefines.clientRecv (refines : ReadRefines r file s c a)
    (few : lastBlock r.blksize file < 65535) {p : Packet} (sent : p ∈ s.wire) :
    ∃ a', ReadRefines r file s (c.recv p) a' := by
  unfold ReadClient.recv
  cases p with
  | ack blk => exact ⟨a, refines⟩
  | err code msg => exact ⟨a, refines⟩
  | oack opts =>
      dsimp only
      split
      · exact ⟨_, refines.clientAck (Nat.zero_le _) _⟩
      · exact ⟨a, refines⟩
  | data blk payload =>
      dsimp only
      split
      case isFalse => exact ⟨a, refines⟩
      case isTrue next =>
        have behind := (StopAndWait.safe_of_reached refines.reached).behind
        have number : blk.toNat = a.accepted.length + 1 := by
          rw [next.2, refines.accepted]
          exact toNat_ofNat_small (by have := refines.last; omega)
        have arrived := refines.wire blk payload sent
        rw [number] at arrived
        have taken : ReadRefines r file s
            { c with
              accepted := c.accepted + 1
              data := c.data ++ payload
              finished := payload.length < c.blksize }
            { a with accepted := a.accepted ++ [payload] } := by
          refine { refines with
            reached := refines.reached.step (.accept arrived), accepted := ?_, received := ?_ }
          · simp [refines.accepted]
          · simp [refines.received]
        exact ⟨_, taken.clientAck (by simp [number]) _⟩

theorem readRefines_open (r : Request) (file : List Byte) :
    ReadRefines r file (openRrq r file) ReadClient.start StopAndWait.start where
  reached := .refl
  sameFile := rfl
  sameBlksize := rfl
  blocknum := rfl
  last := Nat.zero_le _
  pos := (Nat.zero_min _).symm
  data begun := absurd rfl begun
  expected := rfl
  pkt := nofun
  wire := nofun
  acks := nofun
  accepted := rfl
  received := rfl
  done := nofun

theorem readRefines_start (few : lastBlock r.blksize file < 65535) :
    ∃ a, ReadRefines r file (serveRrq r file) ReadClient.start a := by
  unfold serveRrq
  split
  case isTrue =>
    refine ⟨_, { readRefines_open r file with pkt := nofun, wire := ?_ }⟩
    intro blk payload member
    rcases List.mem_cons.mp member with same | earlier
    · cases same
    · exact absurd earlier List.not_mem_nil
  case isFalse =>
    have greeted : ReadRefines r file (openRrq r file) ReadClient.start
        { StopAndWait.start with acked := insert 0 ∅ } :=
      { readRefines_open r file with
        reached := StopAndWait.Reached.step .refl (.ack (Nat.zero_le _))
        acks := nofun
        done := nofun }
    exact ⟨_, greeted.sendBlock few (Set.mem_insert 0 ∅) (Nat.succ_pos _) rfl⟩

/-- Every run is a run of the stop-and-wait protocol. -/
theorem readRefines_of_run (few : lastBlock r.blksize file < 65535) (run : ReadRun r file s c) :
    ∃ a, ReadRefines r file s c a := by
  induction run with
  | start => exact readRefines_start few
  | toServer run sent ih =>
      obtain ⟨a, refines⟩ := ih
      exact refines.recv few sent
  | toClient run sent ih =>
      obtain ⟨a, refines⟩ := ih
      exact refines.clientRecv few sent
  | timeout run ih =>
      obtain ⟨a, refines⟩ := ih
      exact ⟨a, refines.timeout⟩
  | abort run code msg ih =>
      obtain ⟨a, refines⟩ := ih
      refine ⟨a, { refines with acks := fun blk member => ?_ }⟩
      rcases List.mem_cons.mp member with same | earlier
      · cases same
      · exact refines.acks blk earlier

/-- The client holds the first blocks of the file at every moment, and all of it
when the server reports that it is done. -/
theorem read_safe (r : Request) (file : List Byte) (few : lastBlock r.blksize file < 65535)
    {s : Rrq} {c : ReadClient} (run : ReadRun r file s c) :
    (∃ k, c.data = firstBlocks r.blksize file k) ∧ (s.status = .done → c.data = file) := by
  obtain ⟨a, refines⟩ := readRefines_of_run few run
  have safe := StopAndWait.safe_of_reached refines.reached
  have received : c.data = firstBlocks r.blksize file a.accepted.length :=
    refines.received.trans (flatten_accepted _ _ safe.accepted)
  refine ⟨⟨_, received⟩, fun done => ?_⟩
  obtain ⟨atLast, arrived⟩ := refines.done done
  have all : a.accepted.length = lastBlock r.blksize file :=
    (Nat.le_antisymm safe.behind (safe.acks _ arrived)).trans atLast
  rw [received, all]
  exact firstBlocks_lastBlock (blksize_pos r)

theorem read_safe_oneBlock :
    ((serveRrq ⟨fun _ => none, fun _ => none⟩ [1, 2, 3]).recv (.ack 1)).status = .done ∧
      (ReadClient.start.recv (.data 1 [1, 2, 3])).data = [1, 2, 3] := by
  have run : ReadRun ⟨fun _ => none, fun _ => none⟩ [1, 2, 3]
      ((serveRrq ⟨fun _ => none, fun _ => none⟩ [1, 2, 3]).recv (.ack 1))
      (ReadClient.start.recv (.data 1 [1, 2, 3])) :=
    .toServer (.toClient .start List.mem_cons_self) List.mem_cons_self
  exact ⟨rfl, (read_safe _ _ (by decide) run).2 rfl⟩

end Refinement

end Ncd15.Tftp
