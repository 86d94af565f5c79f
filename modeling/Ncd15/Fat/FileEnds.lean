import Ncd15.Fat.WalkEnds

/-!
# Reads and writes end

A write moves on by a byte at least in each round, so that as many rounds as there are bytes
are enough for it, on any volume.
-/

namespace Ncd15.Fat

open Ncd15.Library

theorem modifyEntry_total (slot : Slot) (edit : Nat → Sector → Sector) :
    Total (modifyEntry slot edit) :=
  loadWbuf_then_total (updateSec_total _ _) _

theorem attachFirst_total (fp : FatFile) (written : Int) : Total (attachFirst fp written) := by
  refine .ite (.bind fatAllocCluster_total fun nc => .ite (.pure _) ?_) (.pure _)
  exact .bind (modifyEntry_total _ _) fun ok => .ite (.pure _) (.pure _)

theorem nextForWrite_total (fp : FatFile) (written : Int) : Total (nextForWrite fp written) := by
  refine .bind (fatNextClus_total _) fun nxt => .ite ?_ (.pure _)
  refine .bind fatAllocCluster_total fun nc => .ite (.pure _) ?_
  exact .bind (fatSetEntry_total _ _) fun ok => .ite (.pure _) (.pure _)

theorem fatFflush_total (fp : FatFile) : Total (fatFflush fp) := by
  refine .bind mount_total fun m => .ite (.pure _) (.bind invalidate_total fun _ => ?_)
  exact .bind (modifyEntry_total _ _) fun ok => .pure _

theorem fwriteRound_total (m : Mount) (total : Nat) (s : WriteLoop) :
    Total (fwriteRound m total s) := by
  refine .ite (.pure _) (.bind (attachFirst_total _ _) fun attached => ?_)
  cases attached with
  | error result => exact .pure _
  | ok fp =>
      refine loadWbuf_then_total (updateSec_then_total (.ite ?_ (.pure _)) _ _) _
      exact .bind (nextForWrite_total _ _) fun next => by cases next <;> exact .pure _

/-- A round of `fat_fwrite` that goes on leaves fewer bytes. -/
theorem fwriteRound_shorter (m : Mount) (total : Nat) (s : WriteLoop) :
    Triple (fun _ => True) (fwriteRound m total s)
      (Sum.elim (fun s' _ => s'.rest.length < s.rest.length) fun _ _ => True) := by
  have any {α : Type} {f : DriverM α} : Triple (fun _ => True) f fun _ _ => True :=
    fun _ _ _ _ _ => trivial
  refine Triple.ite (fun _ => Triple.pure fun _ => id) fun more => ?_
  refine Triple.bind any fun attached => ?_
  cases attached with
  | error result => exact Triple.pure fun _ => id
  | ok fp =>
      have chunk : (s.rest.drop
          (s.rest.take (512 - inCluster m.clusSize fp.curPos % 512)).length).length <
          s.rest.length := by
        have some := List.length_pos_iff.mpr more
        have inSec : inCluster m.clusSize fp.curPos % 512 < 512 := Nat.mod_lt _ (by decide)
        simp only [List.length_drop, List.length_take]
        omega
      refine Triple.bind any fun ok => Triple.ite (fun _ => Triple.pure fun _ => id) fun _ => ?_
      refine Triple.bind any fun ok => Triple.ite (fun _ => Triple.pure fun _ => id) fun _ => ?_
      refine Triple.ite (fun _ => Triple.bind any fun next => ?_) fun _ =>
        Triple.pure fun _ _ => chunk
      cases next with
      | error result => exact Triple.pure fun _ => id
      | ok fp => exact Triple.pure fun _ _ => chunk

/-- One round more than there are bytes is enough for `fat_fwrite`, on any volume. -/
theorem fatFwrite_returns {rounds : Nat} {bytes : List UInt8} (enough : bytes.length < rounds)
    (fp : FatFile) : Total (fatFwrite rounds fp bytes) := by
  refine .bind mount_total fun m => .ite (.pure _) (.bind invalidate_total fun _ => ?_)
  exact .loop (fun s => s.rest.length) (fwriteRound_total m _) (fwriteRound_shorter m _) enough

theorem readSec_total (lba : Nat) : Total (readSec lba) := by
  intro d
  by_cases cached : d.secBufValid ∧ d.secBufLba = lba
  · exact ⟨_, _, if_pos cached⟩
  · by_cases has : d.blk.Has lba
    · exact ⟨_, _, (if_neg cached).trans (if_pos has)⟩
    · exact ⟨_, _, (if_neg cached).trans (if_neg has)⟩

theorem freadRound_total (m : Mount) (max : Nat) (s : ReadLoop) : Total (freadRound m max s) := by
  refine .ite (.pure _) (.bind invalidate_total fun _ => .bind (readSec_total _) fun read => ?_)
  cases read with
  | none => exact .pure _
  | some sector =>
      refine .bind (.modify _) fun _ => .ite (.bind (fatNextClus_total _) fun nxt => ?_) (.pure _)
      exact .ite (.pure _) (.pure _)

/-- A round of `fat_fread` stores a byte at least if it goes on, and none too many. -/
theorem freadRound_count {m : Mount} {max : Nat} {s : ReadLoop} (within : s.bytes.length ≤ max) :
    Triple (fun _ => True) (freadRound m max s)
      (Sum.elim (fun s' _ => s.bytes.length < s'.bytes.length ∧ s'.bytes.length ≤ max)
        fun r _ => (r.1 ≤ 0 ∨ r.1 = r.2.bytes.length) ∧ r.2.bytes.length ≤ max) := by
  refine Triple.ite (fun _ => Triple.pure fun _ _ => ⟨.inr rfl, within⟩) fun more => ?_
  refine Triple.bind Triple.trivial fun _ => Triple.bind Triple.trivial fun read => ?_
  cases read with
  | none => exact Triple.pure fun _ _ => ⟨.inl (Int.negSucc_le_zero 0), within⟩
  | some sector =>
      have chunk : s.bytes.length <
            (s.bytes ++ sector.slice (inCluster m.clusSize s.fp.curPos % 512)
              (min (512 - inCluster m.clusSize s.fp.curPos % 512)
                (max - s.bytes.length))).length ∧
          (s.bytes ++ sector.slice (inCluster m.clusSize s.fp.curPos % 512)
              (min (512 - inCluster m.clusSize s.fp.curPos % 512)
                (max - s.bytes.length))).length ≤ max := by
        have inSec : inCluster m.clusSize s.fp.curPos % 512 < 512 := Nat.mod_lt _ (by decide)
        simp only [List.length_append, Buffer.length_slice]
        omega
      refine Triple.bind Triple.trivial fun _ => Triple.ite (fun _ => ?_) fun _ =>
        Triple.pure fun _ _ => chunk
      refine Triple.bind Triple.trivial fun nxt => Triple.ite (fun _ => ?_) fun _ =>
        Triple.pure fun _ _ => chunk
      exact Triple.pure fun _ _ => ⟨.inr rfl, chunk.2⟩

theorem freadRound_longer (m : Mount) (max : Nat) (s : ReadLoop) :
    Triple (fun _ => True) (freadRound m max s)
      (Sum.elim (fun s' _ => max - s'.bytes.length < max - s.bytes.length) fun _ _ => True) := by
  by_cases full : max ≤ s.bytes.length
  · rw [freadRound, if_pos full]
    exact Triple.pure fun _ => id
  · refine (freadRound_count (Nat.le_of_not_le full)).weaken fun r _ post => ?_
    cases r with
    | inl s' =>
        simp only [Sum.elim_inl] at post ⊢
        omega
    | inr result => trivial

/-- One round more than there are bytes is enough for `fat_fread`, on any volume. -/
theorem fatFread_returns {rounds max : Nat} (enough : max < rounds) (fp : FatFile) :
    Total (fatFread rounds fp max) := by
  refine .bind mount_total fun m => .ite (.pure _) (.ite (.pure _) (.bind ?_ fun _ => .pure _))
  refine .loop (fun s => min max (fp.fileSize - fp.curPos) - s.bytes.length)
    (freadRound_total m _) (freadRound_longer m _) ?_
  simp only [List.length_nil]
  omega

/-- `fat_fread` returns the number of bytes that it has stored, or an error. -/
theorem fatFread_count (rounds : Nat) (fp : FatFile) (max : Nat) :
    Triple (fun _ => True) (fatFread rounds fp max) fun r _ =>
      (r.1 ≤ 0 ∨ r.1 = r.2.1.length) ∧ r.2.1.length ≤ max := by
  refine Triple.bind Triple.trivial fun m => ?_
  refine Triple.ite (fun _ => Triple.pure fun _ _ =>
    ⟨.inl (Int.negSucc_le_zero 0), Nat.zero_le _⟩) fun _ => ?_
  refine Triple.ite (fun _ => Triple.pure fun _ _ => ⟨.inl le_rfl, Nat.zero_le _⟩) fun _ => ?_
  have loop : Triple (fun _ => True)
      (Prog.loop (freadRound m (min max (fp.fileSize - fp.curPos))) rounds { fp, bytes := [] })
      fun r _ => (r.1 ≤ 0 ∨ r.1 = r.2.bytes.length) ∧
        r.2.bytes.length ≤ min max (fp.fileSize - fp.curPos) := by
    refine (Triple.loop (I := fun s _ => s.bytes.length ≤ min max (fp.fileSize - fp.curPos))
      (fun s => ?_) rounds _).strengthen fun _ _ => Nat.zero_le _
    refine Triple.assuming (fun _ within => within) fun within => ?_
    refine ((freadRound_count within).strengthen fun _ _ => trivial).weaken fun r _ post => ?_
    cases r with
    | inl s' => exact post.2
    | inr result => exact post
  refine loop.bind fun r => Triple.pure fun _ post => ⟨post.1, ?_⟩
  exact post.2.trans (Nat.min_le_left _ _)

theorem fatFopen_fueled (path : List UInt8) (fp : FatFile) :
    Fueled fun rounds => fatFopen rounds path fp :=
  .bind (.const mount) fun _ => .ite (.const _) (walkFile_fueled _ _ _)

theorem fatFread_fueled (fp : FatFile) (max : Nat) : Fueled fun rounds => fatFread rounds fp max :=
  .bind (.const mount) fun _ => .ite (.const _) (.ite (.const _)
    (.bind (fun _ _ le => Extends.loop (fun _ => Extends.refl _) le _) fun _ => .const _))

end Ncd15.Fat
