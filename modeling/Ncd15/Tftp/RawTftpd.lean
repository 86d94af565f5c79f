import Ncd15.Library.Blocks

/-!
# The raw-frame TFTP server

One transfer of `raw_tftpd.py`.  The server reads the file on with every
acknowledgement it gets and numbers the block after the acknowledgement, so that
number and contents belong together only while the acknowledgements come in order.
-/

namespace Ncd15.Tftp.Raw

open Ncd15.Library

abbrev Byte := BitVec 8

section Server

/-- A record of `xfers`, with the contents of the file `f` and its position. -/
structure Xfer where
  file : List Byte
  pos : Nat
  lastN : Nat
  done : Bool
  deriving DecidableEq

/-- The server and one key of `xfers`: the record, the DATA packets sent under it and
whether `struct.pack` has raised. -/
structure Server where
  xfer : Option Xfer
  sent : List (Nat × List Byte)
  raised : Bool
  deriving DecidableEq

def Xfer.chunk (x : Xfer) : List Byte := (x.file.drop x.pos).take 512

/-- The record after the chunk has been read to be sent as block `n`. -/
def Xfer.numbered (x : Xfer) (n : Nat) : Xfer :=
  { x with pos := x.pos + x.chunk.length, lastN := n, done := x.chunk.length < 512 }

def Xfer.opened (file : List Byte) : Xfer := ⟨file, 0, 0, false⟩

def rrq (file : List Byte) : Server where
  xfer := some ((Xfer.opened file).numbered 1)
  sent := [(1, (Xfer.opened file).chunk)]
  raised := false

def Server.ack (s : Server) (ack : BitVec 16) : Server :=
  if s.raised then s
  else
    match s.xfer with
    | none => s
    | some x =>
        if x.done ∧ ack.toNat = x.lastN then { s with xfer := none }
        else
          let n := ack.toNat + 1
          let s := { s with xfer := some (x.numbered n) }
          if n < 65536 then { s with sent := (n, x.chunk) :: s.sent }
          else { s with raised := true }

/-- The next acknowledgement is that of the block sent last. -/
def InOrder (s : Server) (ack : BitVec 16) : Prop :=
  ∀ x, s.xfer = some x → ack.toNat = x.lastN

/-- The runs of one transfer whose acknowledgements come in order, each once. -/
inductive OrderedRun (file : List Byte) : Server → Prop
  | start : OrderedRun file (rrq file)
  | ack {s : Server} (run : OrderedRun file s) (ack : BitVec 16) (inOrder : InOrder s ack) :
      OrderedRun file (s.ack ack)

end Server

section Client

/-- A client that takes every block once and in order. -/
structure Client where
  accepted : Nat
  data : List Byte
  finished : Bool

def Client.recv (c : Client) (p : Nat × List Byte) : Client :=
  if c.finished = false ∧ p.1 = c.accepted + 1 then
    ⟨c.accepted + 1, c.data ++ p.2, p.2.length < 512⟩
  else c

def Client.run (received : List (Nat × List Byte)) : Client :=
  received.foldl Client.recv ⟨0, [], false⟩

end Client

section Safety

variable {file : List Byte} {s : Server} {x : Xfer}

/-- A DATA packet that carries the bytes of its block. -/
def OwnBytes (file : List Byte) (p : Nat × List Byte) : Prop :=
  1 ≤ p.1 ∧ p.1 ≤ lastBlock 512 file ∧ p.2 = block 512 file p.1

/-- The record after block `lastN` of the file has been read. -/
structure AtBlock (file : List Byte) (x : Xfer) : Prop where
  sameFile : x.file = file
  first : 1 ≤ x.lastN
  last : x.lastN ≤ lastBlock 512 file
  pos : x.pos = min (512 * x.lastN) file.length
  done : x.done = true ↔ x.lastN = lastBlock 512 file

/-- The packets sent so far carry their own bytes, and the record is where it
should be. -/
structure Serving (file : List Byte) (s : Server) : Prop where
  packets : ∀ p ∈ s.sent, OwnBytes file p
  record : ∀ x, s.xfer = some x → AtBlock file x

theorem chunk_of_pos {k : Nat} (sameFile : x.file = file) (pos : x.pos = 512 * k) :
    x.chunk = block 512 file (k + 1) := by
  rw [Xfer.chunk, sameFile, pos]
  rfl

theorem atBlock_numbered {k : Nat} (sameFile : x.file = file) (pos : x.pos = 512 * k)
    (more : k < lastBlock 512 file) : AtBlock file (x.numbered (k + 1)) := by
  have chunk := chunk_of_pos sameFile pos
  obtain ⟨low, -⟩ := lastBlock_bounds file (by decide : 0 < 512)
  constructor
  case sameFile => exact sameFile
  case first => exact Nat.succ_pos k
  case last => exact more
  case pos =>
    change x.pos + x.chunk.length = min (512 * (k + 1)) file.length
    rw [chunk, length_block, pos]
    omega
  case done =>
    change decide (x.chunk.length < 512) = true ↔ k + 1 = lastBlock 512 file
    rw [decide_eq_true_iff, chunk]
    exact length_block_lt_iff (by decide) (Nat.succ_pos k) more

/-- Before the last block the position is a multiple of the block size. -/
theorem AtBlock.pos_of_not_done (at_ : AtBlock file x) (notDone : ¬ x.done = true) :
    x.lastN < lastBlock 512 file ∧ x.pos = 512 * x.lastN := by
  have more : x.lastN < lastBlock 512 file :=
    Nat.lt_of_le_of_ne at_.last fun atLast => notDone (at_.done.mpr atLast)
  obtain ⟨low, -⟩ := lastBlock_bounds file (by decide : 0 < 512)
  refine ⟨more, ?_⟩
  rw [at_.pos]
  omega

theorem serving_rrq (file : List Byte) : Serving file (rrq file) where
  packets p member := by
    rw [List.mem_singleton.mp member]
    exact ⟨Nat.le_refl 1, Nat.succ_pos _, rfl⟩
  record x same := by
    rw [← Option.some.inj same]
    exact atBlock_numbered (k := 0) rfl rfl (Nat.succ_pos _)

theorem Serving.ack (serving : Serving file s) {ack : BitVec 16} (inOrder : InOrder s ack) :
    Serving file (s.ack ack) := by
  unfold Server.ack
  split
  · exact serving
  split
  · exact serving
  case h_2 x record =>
    have at_ := serving.record x record
    have number := inOrder x record
    split
    · exact ⟨serving.packets, nofun⟩
    case isFalse goesOn =>
      obtain ⟨more, pos⟩ := at_.pos_of_not_done fun done => goesOn ⟨done, number⟩
      have next : ∀ y, some (x.numbered (ack.toNat + 1)) = some y → AtBlock file y := by
        intro y same
        rw [← Option.some.inj same, number]
        exact atBlock_numbered at_.sameFile pos more
      dsimp only
      split
      · refine ⟨fun p member => ?_, next⟩
        rcases List.mem_cons.mp member with rfl | earlier
        · rw [number]
          exact ⟨Nat.succ_pos _, more, chunk_of_pos at_.sameFile pos⟩
        · exact serving.packets p earlier
      · exact ⟨serving.packets, next⟩

theorem serving_of_orderedRun (run : OrderedRun file s) : Serving file s := by
  induction run with
  | start => exact serving_rrq file
  | ack run ack inOrder ih => exact ih.ack inOrder

/-- The record goes with the acknowledgement of the last block. -/
theorem Serving.removed (serving : Serving file s) {ack : BitVec 16} (present : s.xfer ≠ none)
    (removed : (s.ack ack).xfer = none) : ack.toNat = lastBlock 512 file := by
  unfold Server.ack at removed
  split at removed
  · exact absurd removed present
  split at removed
  · exact absurd removed present
  case h_2 x record =>
    split at removed
    case isTrue final => exact final.2.trans ((serving.record x record).done.mp final.1)
    case isFalse =>
      dsimp only at removed
      split at removed <;> cases removed

/-- A client that holds the first blocks of the file, and all of them once it has
taken a short one. -/
structure Client.Holds (file : List Byte) (c : Client) : Prop where
  data : c.data = firstBlocks 512 file c.accepted
  finished : c.finished = true → c.accepted = lastBlock 512 file

theorem Client.Holds.recv {c : Client} (holds : c.Holds file) {p : Nat × List Byte}
    (own : OwnBytes file p) : (c.recv p).Holds file := by
  obtain ⟨first, last, same⟩ := own
  unfold Client.recv
  split
  case isFalse => exact holds
  case isTrue next =>
    constructor
    · rw [same, holds.data, next.2]
      exact (firstBlocks_succ _).symm
    · intro short
      rw [decide_eq_true_iff, same, length_block_lt_iff (by decide) first last] at short
      exact next.2.symm.trans short

theorem client_run_holds {received : List (Nat × List Byte)}
    (own : ∀ p ∈ received, OwnBytes file p) : (Client.run received).Holds file := by
  have fold : ∀ c : Client, c.Holds file → (received.foldl Client.recv c).Holds file := by
    intro c holds
    induction received generalizing c with
    | nil => exact holds
    | cons p received ih =>
        exact ih (fun q member => own q (List.mem_cons_of_mem p member)) _
          (holds.recv (own p List.mem_cons_self))
  exact fold _ ⟨rfl, nofun⟩

/-- What the server promises about a transfer. -/
structure ServesFile (file : List Byte) (s : Server) : Prop where
  packets : ∀ p ∈ s.sent, OwnBytes file p
  removed : ∀ ack, s.xfer ≠ none → (s.ack ack).xfer = none → ack.toNat = lastBlock 512 file
  client : ∀ received, (∀ p ∈ received, p ∈ s.sent) →
    (Client.run received).finished = true → (Client.run received).data = file

/-- As long as the acknowledgements come in order, each once, every DATA packet
carries the bytes of its block. -/
theorem servesFile_of_orderedRun (run : OrderedRun file s) : ServesFile file s := by
  have serving := serving_of_orderedRun run
  refine ⟨serving.packets, fun ack => serving.removed, fun received sent finished => ?_⟩
  have holds := client_run_holds fun p member => serving.packets p (sent p member)
  rw [holds.data, holds.finished finished]
  exact firstBlocks_lastBlock (by decide)

theorem servesFile_of_orderedRun_twoBlocks :
    ServesFile (List.replicate 513 0) ((rrq (List.replicate 513 0)).ack 1) := by
  refine servesFile_of_orderedRun (.ack .start 1 ?_)
  intro x same
  rw [← Option.some.inj same]
  rfl

/-- After an acknowledgement out of order the number belongs to one block and the
contents to another. -/
theorem ack_out_of_order (run : OrderedRun file s) (record : s.xfer = some x)
    (notDone : ¬ x.done = true) (running : s.raised = false) {ack : BitVec 16}
    (small : ack.toNat + 1 < 65536) :
    (s.ack ack).sent = (ack.toNat + 1, block 512 file (x.lastN + 1)) :: s.sent := by
  have at_ := (serving_of_orderedRun run).record x record
  obtain ⟨-, pos⟩ := at_.pos_of_not_done notDone
  unfold Server.ack
  rw [if_neg (by simp [running]), record]
  dsimp only
  rw [if_neg fun final => notDone final.1, if_pos small, chunk_of_pos at_.sameFile pos]

/-- Block 1 of 513 bytes acknowledged twice: block 2 is sent again, empty. -/
theorem repeated_ack_sends_wrong_block :
    ¬ ServesFile (List.replicate 513 0) (((rrq (List.replicate 513 0)).ack 1).ack 1) := by
  intro serves
  have sent : (2, []) ∈ (((rrq (List.replicate 513 0)).ack 1).ack 1).sent := by
    decide +kernel
  have own := (serves.packets _ sent).2.2
  have wrong : block 512 (List.replicate 513 (0 : Byte)) 2 ≠ [] := by
    decide +kernel
  exact wrong own.symm

end Safety

end Ncd15.Tftp.Raw
