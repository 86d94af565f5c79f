import Ncd15.Library.Blocks
import Mathlib.Order.Lattice

/-!
# Packets and options of a TFTP transfer

The packets that the two sides of a transfer exchange, and the options that the
server answers to.
-/

namespace Ncd15.Tftp

open Ncd15.Library

abbrev Byte := BitVec 8

abbrev Half := BitVec 16

/-- The packets of a transfer.  The values in an option acknowledgement travel as
decimal text. -/
inductive Packet
  | data (blk : Half) (payload : List Byte)
  | ack (blk : Half)
  | err (code : Half) (msg : List Byte)
  | oack (opts : List (String × Int))
  deriving DecidableEq

/-- How far `serve_rrq` or `serve_wrq` has come. -/
inductive Status
  | running
  | done
  | returned
  deriving DecidableEq

theorem toNat_ofNat_small {n : Nat} (small : n < 65536) : (BitVec.ofNat 16 n).toNat = n := by
  rw [BitVec.toNat_ofNat]
  exact Nat.mod_eq_of_lt small

theorem flatten_accepted (accepted : List (List Byte)) (size : Nat)
    (blocks : accepted = (List.range accepted.length).map fun i => block size file (i + 1)) :
    accepted.flatten = firstBlocks size file accepted.length := by
  conv_lhs => rw [blocks]
  rfl

section Options

/-- The options of a request: the dictionary `opts` and Python's `int`, which has
no value where it raises `ValueError`. -/
structure Request where
  opts : String → Option String
  int : String → Option Int

/-- The number in an option, if there is one. -/
def Request.number (r : Request) (name : String) : Option Int := (r.opts name).bind r.int

/-- `resp_opts["blksize"]`. -/
def Request.respBlksize (r : Request) : Option Int :=
  (r.number "blksize").map fun req => max 8 (min req 65464)

/-- `resp_opts["timeout"]`. -/
def Request.respTimeout (r : Request) : Option Int :=
  (r.number "timeout").filter fun t => 1 ≤ t ∧ t ≤ 255

/-- `blksize`, with `DEFAULT_BLKSIZE`. -/
def Request.blksize (r : Request) : Nat := (r.respBlksize.getD 512).toNat

/-- The block size that a client reads from an option acknowledgement. -/
def agreedBlksize (opts : List (String × Int)) : Nat :=
  ((opts.lookup "blksize").getD 512).toNat

/-- `resp_opts` of a read request for a file of the given size. -/
def Request.readOpts (r : Request) (size : Nat) : List (String × Int) :=
  (r.respBlksize.map fun n => ("blksize", n)).toList ++
    ((r.opts "tsize").map fun _ => ("tsize", (size : Int))).toList ++
    (r.respTimeout.map fun t => ("timeout", t)).toList

/-- `resp_opts` of a write request. -/
def Request.writeOpts (r : Request) : List (String × Int) :=
  (r.respBlksize.map fun n => ("blksize", n)).toList ++
    (r.respTimeout.map fun t => ("timeout", t)).toList

theorem blksize_pos (r : Request) : 0 < r.blksize := by
  unfold Request.blksize Request.respBlksize
  cases r.number "blksize" with
  | none => decide
  | some req =>
      simp only [Option.map_some, Option.getD_some]
      omega

theorem agreedBlksize_writeOpts (r : Request) : agreedBlksize r.writeOpts = r.blksize := by
  unfold agreedBlksize Request.writeOpts Request.blksize
  cases r.respBlksize with
  | none => cases r.respTimeout <;> rfl
  | some n => rfl

/-- Without an answer to any option the block size is the default. -/
theorem blksize_of_writeOpts_nil {r : Request} (none : r.writeOpts = []) : r.blksize = 512 := by
  rw [← agreedBlksize_writeOpts, none]
  rfl

end Options

end Ncd15.Tftp
