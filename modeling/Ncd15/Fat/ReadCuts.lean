import Ncd15.Fat.Growth

/-!
# Reading a file in pieces

What successive calls of `fat_fread` deliver, for any contents of the table.  A call
that ends on a cluster boundary does not follow the link, and the next one begins in the
cluster that has been read.
-/

namespace Ncd15.Fat

open Ncd15.Library

section Paths

/-- What the walk from a first cluster meets behind some clusters. -/
def Mount.behind (m : Mount) (disk : Nat → Sector) (first : Nat) (clusters : List Nat) : Nat :=
  if clusters = [] then first else m.next disk (clusters.getD (clusters.length - 1) 0)

/-- The clusters reached from a first one: they hold the bytes up to `size`, or no cluster
follows them. -/
structure Mount.Path (m : Mount) (disk : Nat → Sector) (first size : Nat) (clusters : List Nat) :
    Prop where
  isCluster : ∀ k, k < clusters.length → m.IsCluster (clusters.getD k 0)
  start : clusters ≠ [] → clusters.getD 0 0 = first
  linked : ∀ k, k + 1 < clusters.length →
    m.next disk (clusters.getD k 0) = clusters.getD (k + 1) 0
  ends : size ≤ clusters.length * m.secPerClus * 512 ∨
    ¬ m.IsCluster (m.behind disk first clusters)

variable {m : Mount} {disk : Nat → Sector} {first size : Nat} {clusters : List Nat}

/-- Whatever the table says, there is a path. -/
theorem exists_path (m : Mount) (disk : Nat → Sector) (positive : 0 < m.secPerClus)
    (first size : Nat) : ∃ clusters, m.Path disk first size clusters := by
  suffices reach : ∀ count first, ∃ clusters,
      m.Path disk first (count * m.secPerClus * 512) clusters by
    obtain ⟨clusters, path⟩ := reach size first
    have enough : size ≤ size * m.secPerClus * 512 := by
      rw [Nat.mul_assoc]
      exact Nat.le_mul_of_pos_right _ (by omega)
    exact ⟨clusters, path.isCluster, path.start, path.linked, path.ends.imp enough.trans id⟩
  intro count
  induction count with
  | zero => exact fun first => ⟨[], nofun, nofun, nofun, .inl (by simp)⟩
  | succ count ih =>
      intro first
      by_cases isCluster : m.IsCluster first
      swap
      · exact ⟨[], nofun, nofun, nofun, .inr isCluster⟩
      obtain ⟨rest, path⟩ := ih (m.next disk first)
      refine ⟨first :: rest, fun k inside => ?_, fun _ => rfl, fun k inside => ?_, ?_⟩
      · cases k with
        | zero => exact isCluster
        | succ k => exact path.isCluster k (Nat.lt_of_succ_lt_succ inside)
      · cases k with
        | zero =>
            have some : rest ≠ [] := by
              rintro rfl
              simp at inside
            exact (path.start some).symm
        | succ k => exact path.linked k (Nat.lt_of_succ_lt_succ inside)
      · have behind : m.behind disk first (first :: rest) =
            m.behind disk (m.next disk first) rest := by
          rw [Mount.behind, Mount.behind, if_neg (List.cons_ne_nil _ _)]
          cases rest with
          | nil => rfl
          | cons next rest => rfl
        rw [behind]
        refine path.ends.imp (fun covered => ?_) id
        have grows (n : Nat) : (n + 1) * m.secPerClus * 512 =
            n * m.secPerClus * 512 + m.secPerClus * 512 := by rw [Nat.succ_mul, Nat.add_mul]
        rw [List.length_cons, grows count, grows rest.length]
        exact Nat.add_le_add_right covered _

/-- The chain of a file that it covers is a path. -/
theorem FileOnDisk.path {capacity : Nat} (file : FileOnDisk m disk clusters size)
    (sane : m.Sane capacity) (head : clusters ≠ [] → clusters.getD 0 0 = first) :
    m.Path disk first size clusters where
  isCluster := file.chain.isCluster
  start := head
  linked := fun _ inside => file.chain.next_eq sane inside
  ends := .inl file.fits

end Paths

section Loop

variable {d : Driver} {first size : Nat} {clusters : List Nat}

theorem index_eq (m : Mount) (pos : Nat) :
    pos / 512 / m.secPerClus = pos / (m.secPerClus * 512) := by
  rw [Nat.div_div_eq_div_mul, Nat.mul_comm]

theorem lt_of_index {m : Mount} {capacity pos count : Nat} (sane : m.Sane capacity)
    (index : pos / (m.secPerClus * 512) < count) : pos < count * m.secPerClus * 512 := by
  have sectors := sane.sectors
  rw [Nat.mul_assoc]
  exact (Nat.div_lt_iff_lt_mul (by omega)).mp index

/-- The loop has delivered `k` bytes of the path, and the handle is in the cluster of the
last of them. -/
structure Delivered (m : Mount) (disk : Nat → Sector) (clusters : List Nat) (s : ReadLoop)
    (k : Nat) (result : Int × ReadLoop) : Prop where
  code : result.1 = (s.bytes.length + k : Nat)
  bytes : result.2.bytes = s.bytes ++ m.bytesAt disk clusters s.fp.curPos k
  handle : result.2.fp = { s.fp with
    curPos := s.fp.curPos + k
    curClus := if k = 0 then s.fp.curClus
      else clusters.getD ((s.fp.curPos + k - 1) / 512 / m.secPerClus) 0 }

/-- The loop after some bytes of the path. -/
def ReadLoop.along (s : ReadLoop) (m : Mount) (disk : Nat → Sector) (clusters : List Nat)
    (count clus : Nat) : ReadLoop :=
  { fp := { s.fp with curPos := s.fp.curPos + count, curClus := clus }
    bytes := s.bytes ++ m.bytesAt disk clusters s.fp.curPos count }

theorem Delivered.after {m : Mount} {disk : Nat → Sector} {s : ReadLoop} {count clus k : Nat}
    {result : Int × ReadLoop}
    (delivered : Delivered m disk clusters (s.along m disk clusters count clus) k result)
    (some : 0 < count)
    (last : k = 0 → clus = clusters.getD ((s.fp.curPos + count - 1) / 512 / m.secPerClus) 0) :
    Delivered m disk clusters s (count + k) result where
  code := by
    rw [delivered.code]
    simp [ReadLoop.along, Nat.add_assoc]
  bytes := by
    rw [delivered.bytes, Mount.bytesAt_add, ← List.append_assoc]
    rfl
  handle := by
    rw [delivered.handle, if_neg (show ¬ count + k = 0 by omega)]
    dsimp only [ReadLoop.along]
    split
    · rename_i none
      rw [last none, none, Nat.add_zero, Nat.add_zero]
    · rw [Nat.add_assoc]

/-- The result of a round from a handle in its place. -/
def ReadLoop.onPath (s : ReadLoop) (m : Mount) (disk : Nat → Sector) (first : Nat)
    (clusters : List Nat) (max : Nat) : ReadLoop ⊕ (Int × ReadLoop) :=
  let pos := s.fp.curPos + s.chunk max
  if s.bytes.length + s.chunk max = max then
    .inl (s.along m disk clusters (s.chunk max) s.fp.curClus)
  else if pos < clusters.length * m.secPerClus * 512 then
    .inl (s.along m disk clusters (s.chunk max) (clusters.getD (pos / 512 / m.secPerClus) 0))
  else if m.behind disk first clusters = noClus then
    .inr ((s.bytes.length + s.chunk max : Nat), s.along m disk clusters (s.chunk max) s.fp.curClus)
  else .inl (s.along m disk clusters (s.chunk max) (m.behind disk first clusters))

/-- The bytes of a round stay on the path, and so does the handle while bytes are left. -/
theorem freadRound_path (ready : Ready d) (secOk : d.SecOk)
    (path : d.m.Path d.disk first size clusters) {s : ReadLoop} {max : Nat}
    (more : s.bytes.length < max) (pos_lt : s.fp.curPos + (max - s.bytes.length) < 2 ^ 32)
    (inPlace : s.fp.InPlace d.m clusters)
    (inside : s.fp.curPos < clusters.length * d.m.secPerClus * 512) :
    (∃ d', freadRound d.m max s d = some (s.onPath d.m d.disk first clusters max, d') ∧
      ReadStep d d') ∧
    s.fp.curPos + s.chunk max ≤ clusters.length * d.m.secPerClus * 512 ∧
    (s.fp.curPos + s.chunk max - 1) / 512 / d.m.secPerClus =
      s.fp.curPos / 512 / d.m.secPerClus := by
  have sane := ready.sane
  have sectors := sane.sectors
  have positive : 0 < d.m.secPerClus * 512 := by omega
  have here := index_lt sane inside
  obtain ⟨inSector, atMost⟩ := s.chunk_le max
  have count := ReadLoop.chunk_pos more
  have within := within_cluster sectors inSector
  have upTo : s.fp.curPos + s.chunk max ≤ clusters.length * d.m.secPerClus * 512 := by omega
  refine ⟨?_, upTo, by rw [index_eq, index_eq, div_last count within]⟩
  obtain ⟨d₁, run, step⟩ :=
    freadRound_spec ready secOk more pos_lt (inPlace ▸ path.isCluster _ here)
  refine ⟨d₁, ?_, step⟩
  have bytes := s.slice_chunk max d inPlace
  rw [run]
  unfold ReadLoop.outcome
  dsimp only [ReadLoop.moved]
  rw [bytes, List.length_append, Mount.length_bytesAt]
  unfold ReadLoop.onPath
  dsimp only
  by_cases done : s.bytes.length + s.chunk max = max
  · rw [if_pos done, if_neg (show ¬ _ from fun both => by omega)]
    rfl
  rw [if_neg done]
  by_cases boundary : (s.fp.curPos + s.chunk max) % (d.m.secPerClus * 512) = 0
  · obtain ⟨index, whole⟩ := ends_piece positive count within boundary
    rw [if_pos ⟨boundary, by omega⟩]
    rw [index_eq] at here
    by_cases next : s.fp.curPos / (d.m.secPerClus * 512) + 1 < clusters.length
    · have link := path.linked _ next
      rw [← index_eq, ← inPlace, index_eq, ← index, ← index_eq] at link
      have isNext := path.isCluster _ next
      rw [← index, ← index_eq] at isNext
      have before := lt_of_index sane (by rw [index]; exact next)
      rw [if_pos before, if_neg (by rw [link]; exact cluster_ne_noClus sane isNext), link]
      rfl
    · have last : s.fp.curPos / (d.m.secPerClus * 512) = clusters.length - 1 :=
        Nat.eq_sub_of_add_eq (le_antisymm here (Nat.not_lt.mp next))
      have nonempty : 0 < clusters.length := Nat.zero_lt_of_lt here
      have atEnd : s.fp.curPos + s.chunk max = clusters.length * d.m.secPerClus * 512 := by
        rw [whole, last, Nat.mul_assoc, Nat.sub_add_cancel nonempty]
      have link : d.m.behind d.disk first clusters = d.m.next d.disk s.fp.curClus := by
        rw [Mount.behind, if_neg (List.length_pos_iff.mp nonempty), ← last, ← index_eq, ← inPlace]
      rw [if_neg (show ¬ s.fp.curPos + s.chunk max < _ by omega), link]
      rfl
  · have index := div_inside (stays_inside positive within boundary)
    rw [← index_eq, ← index_eq] at index
    have before : s.fp.curPos + s.chunk max < clusters.length * d.m.secPerClus * 512 := by
      refine lt_of_index sane ?_
      rw [← index_eq, index]
      exact here
    rw [if_neg fun both => boundary both.1, if_pos before, index, ← inPlace]
    rfl

/-- The loop of `fat_fread` from a handle in its place: it stops behind the bytes wanted,
or at the end of a chain that ends before them. -/
theorem freadLoop_path (rounds : Nat) (ready : Ready d) (secOk : d.SecOk)
    (path : d.m.Path d.disk first size clusters) {s : ReadLoop} {max n : Nat}
    (wanted : s.bytes.length + n = max) (pos_lt : s.fp.curPos + n < 2 ^ 32)
    (place : n ≠ 0 → s.fp.InPlace d.m clusters ∧
      s.fp.curPos < clusters.length * d.m.secPerClus * 512)
    (ends : clusters.length * d.m.secPerClus * 512 < s.fp.curPos + n →
      d.m.behind d.disk first clusters = noClus)
    (enough : n < rounds) :
    ∃ d' result, Prog.loop (freadRound d.m max) rounds s d = some (result, d') ∧ ReadStep d d' ∧
      Delivered d.m d.disk clusters s
        (min n (clusters.length * d.m.secPerClus * 512 - s.fp.curPos)) result := by
  induction rounds generalizing s n d with
  | zero => omega
  | succ rounds ih =>
      by_cases done : n = 0
      · subst done
        have stop : freadRound d.m max s d = some (.inr (max, s), d) := by
          rw [freadRound, if_pos (by omega)]
          rw [Nat.add_zero] at wanted
          rw [wanted]
          rfl
        refine ⟨d, _, Prog.loop_inr stop, ReadStep.refl ready.good secOk, ?_⟩
        rw [Nat.zero_min]
        exact ⟨by rw [← wanted], by simp [Mount.bytesAt], rfl⟩
      obtain ⟨inPlace, inside⟩ := place done
      have more : s.bytes.length < max := by omega
      have count := ReadLoop.chunk_pos more
      obtain ⟨-, atMost⟩ := s.chunk_le max
      obtain ⟨⟨d₁, run₁, step₁⟩, upTo, last⟩ :=
        freadRound_path ready secOk path more (by omega) inPlace inside
      have path₁ : d₁.m.Path d₁.disk first size clusters := by
        rw [step₁.m, step₁.disk]
        exact path
      have total : min n (clusters.length * d.m.secPerClus * 512 - s.fp.curPos) =
          s.chunk max + min (n - s.chunk max)
            (clusters.length * d.m.secPerClus * 512 - (s.fp.curPos + s.chunk max)) := by omega
      -- what the rounds behind this one deliver comes behind its bytes
      have continues (x : Nat) (run : freadRound d.m max s d =
            some (.inl (s.along d.m d.disk clusters (s.chunk max) x), d₁))
          (placed : s.chunk max < n →
            x = clusters.getD ((s.fp.curPos + s.chunk max) / 512 / d.m.secPerClus) 0 ∧
            s.fp.curPos + s.chunk max < clusters.length * d.m.secPerClus * 512)
          (same : s.chunk max = n → x = s.fp.curClus) :
          ∃ d' result, Prog.loop (freadRound d.m max) (rounds + 1) s d = some (result, d') ∧
            ReadStep d d' ∧ Delivered d.m d.disk clusters s
              (min n (clusters.length * d.m.secPerClus * 512 - s.fp.curPos)) result := by
        have wanted₁ : (s.along d.m d.disk clusters (s.chunk max) x).bytes.length +
            (n - s.chunk max) = max := by
          simp only [ReadLoop.along, List.length_append, Mount.length_bytesAt]
          omega
        have pos₁ : (s.along d.m d.disk clusters (s.chunk max) x).fp.curPos =
            s.fp.curPos + s.chunk max := rfl
        obtain ⟨d₂, result, run₂, step₂, delivered⟩ := ih (step₁.ready ready) step₁.secOk path₁
          wanted₁ (by rw [pos₁]; omega)
          (fun left => by
            obtain ⟨isNext, before⟩ := placed (by omega)
            rw [step₁.m]
            exact ⟨isNext, before⟩)
          (fun short => by
            rw [step₁.m, pos₁] at short
            rw [step₁.m, step₁.disk]
            exact ends (by omega))
          (by omega)
        rw [step₁.m] at run₂
        rw [step₁.m, step₁.disk, pos₁] at delivered
        refine ⟨d₂, result, (Prog.loop_inl run).trans run₂, step₁.trans step₂, ?_⟩
        rw [total]
        refine delivered.after count fun none => ?_
        have whole : s.chunk max = n := by
          by_contra less
          obtain ⟨-, before⟩ := placed (by omega)
          omega
        rw [same whole, last]
        exact inPlace
      unfold ReadLoop.onPath at run₁
      dsimp only at run₁
      split at run₁
      · exact continues s.fp.curClus run₁ (fun less => by omega) fun _ => rfl
      split at run₁
      · rename_i before
        exact continues _ run₁ (fun _ => ⟨rfl, before⟩) fun same => by omega
      · have link := ends (by omega)
        rw [if_pos link] at run₁
        refine ⟨d₁, _, Prog.loop_inr run₁, step₁, ?_⟩
        have all : min n (clusters.length * d.m.secPerClus * 512 - s.fp.curPos) = s.chunk max := by
          omega
        rw [all]
        refine ⟨rfl, rfl, ?_⟩
        rw [if_neg (show ¬ s.chunk max = 0 by omega), last]
        unfold ReadLoop.along
        rw [show clusters.getD (s.fp.curPos / 512 / d.m.secPerClus) 0 = s.fp.curClus from
          inPlace.symm]

end Loop

section Calls

/-- Where the bytes of a path end, at a file size. -/
def Mount.pathEnd (m : Mount) (clusters : List Nat) (size : Nat) : Nat :=
  min size (clusters.length * m.secPerClus * 512)

/-- Calls of `fat_fread` one after the other, each with its result and its bytes. -/
def readAll (rounds : Nat) : List Nat → FatFile → DriverM (List (Int × List UInt8) × FatFile)
  | [], fp => pure ([], fp)
  | max :: rest, fp => do
      let (code, bytes, fp) ← fatFread rounds fp max
      let (results, fp) ← readAll rounds rest fp
      pure ((code, bytes) :: results, fp)

/-- The result of a call that returns how many bytes it delivers. -/
def counted (bytes : List UInt8) : Int × List UInt8 := (bytes.length, bytes)

/-- Each call returns how many bytes it delivers, and together they are the bytes of the
path up to the length asked for, the file size, and the end of the path. -/
def ReadsPath (rounds : Nat) (lengths : List Nat) (fp : FatFile) (clusters : List Nat)
    (d : Driver) : Prop :=
  ∃ (chunks : List (List UInt8)) (fp' : FatFile) (d' : Driver),
    readAll rounds lengths fp d = some ((chunks.map counted, fp'), d') ∧
    chunks.flatten = d.m.bytesAt d.disk clusters 0
      (min lengths.sum (d.m.pathEnd clusters fp.fileSize))

/-- The cluster that was read last is the one of the position. -/
def StartsWell (m : Mount) (clusters : List Nat) (pos : Nat) : Prop :=
  pos = 0 ∨ pos % m.clusSize ≠ 0 ∨
    clusters.getD (pos / m.clusSize - 1) 0 = clusters.getD (pos / m.clusSize) 0

/-- Bytes up to a position are on the path, or the path ends with the mark of a chain. -/
def EndsWell (m : Mount) (disk : Nat → Sector) (first : Nat) (clusters : List Nat)
    (stop : Nat) : Prop :=
  stop ≤ clusters.length * m.secPerClus * 512 ∨
    (clusters ≠ [] ∧ m.behind disk first clusters = noClus)

/-- Each call that has bytes to deliver begins in the cluster of its position, and leaves
the path at the mark of a chain only. -/
def CallsMeet (m : Mount) (disk : Nat → Sector) (first size : Nat) (clusters : List Nat) :
    Nat → List Nat → Prop
  | _, [] => True
  | pos, len :: rest =>
      (len = 0 ∨ size ≤ pos ∨
        (StartsWell m clusters pos ∧ EndsWell m disk first clusters (min (pos + len) size))) ∧
      CallsMeet m disk first size clusters (min (pos + len) (m.pathEnd clusters size)) rest

/-- An open handle behind the bytes before a position. -/
structure ReadUpTo (m : Mount) (first size : Nat) (clusters : List Nat) (fp : FatFile)
    (pos : Nat) : Prop where
  inUse : fp.inUse = true
  fileSize : fp.fileSize = size
  curPos : fp.curPos = pos
  curClus : fp.curClus =
    if pos = 0 then first else clusters.getD ((pos - 1) / 512 / m.secPerClus) 0
  before : pos ≤ m.pathEnd clusters size

variable {d : Driver} {first size pos : Nat} {clusters : List Nat} {fp : FatFile}

theorem div_before {size pos : Nat} (positive : 0 < size) (off : pos % size ≠ 0) :
    (pos - 1) / size = pos / size := by
  have some : 0 < pos := by
    by_contra zero
    rw [Nat.eq_zero_of_not_pos zero, Nat.zero_mod] at off
    exact off rfl
  have up := ceil_inside positive off
  rw [ceil_eq positive some] at up
  exact Nat.succ.inj up

theorem div_before_boundary {size pos : Nat} (positive : 0 < size) (some : pos ≠ 0)
    (boundary : pos % size = 0) : (pos - 1) / size = pos / size - 1 := by
  have up := ceil_boundary positive boundary
  rw [ceil_eq positive (by omega)] at up
  exact Nat.eq_sub_of_add_eq up

/-- A call that starts and ends well finds the handle in its place. -/
theorem ReadUpTo.place (up : ReadUpTo d.m first size clusters fp pos) (ready : Ready d)
    (path : d.m.Path d.disk first size clusters) {stop : Nat} (more : pos < stop)
    (starts : StartsWell d.m clusters pos) (ends : EndsWell d.m d.disk first clusters stop) :
    fp.InPlace d.m clusters ∧ fp.curPos < clusters.length * d.m.secPerClus * 512 := by
  have sane := ready.sane
  have sectors := sane.sectors
  have positive : 0 < d.m.secPerClus * 512 := by omega
  have before := up.before
  rw [Mount.pathEnd] at before
  have inside : pos < clusters.length * d.m.secPerClus * 512 := by
    by_contra past
    have atEnd : pos = clusters.length * (d.m.secPerClus * 512) := by
      rw [← Nat.mul_assoc]
      omega
    obtain ⟨some, -⟩ := ends.resolve_left (by omega)
    have length := List.length_pos_iff.mpr some
    rw [StartsWell, clusSize_eq sane, atEnd, Nat.mul_mod_left,
      Nat.mul_div_cancel _ positive] at starts
    rcases starts with zero | off | same
    · have := Nat.mul_pos length positive
      omega
    · exact off rfl
    · rw [List.getD_eq_default _ _ (le_refl clusters.length)] at same
      have atLeast := (path.isCluster (clusters.length - 1) (by omega)).1
      omega
  have some : clusters ≠ [] := by
    rintro rfl
    simp at inside
  rw [FatFile.InPlace, up.curPos, up.curClus]
  refine ⟨?_, inside⟩
  rw [StartsWell, clusSize_eq sane] at starts
  split
  · rename_i zero
    rw [zero]
    simp only [Nat.zero_div]
    exact (path.start some).symm
  · rename_i behind
    rw [index_eq, index_eq]
    by_cases boundary : pos % (d.m.secPerClus * 512) = 0
    · rw [div_before_boundary positive behind boundary]
      exact (starts.resolve_left behind).resolve_left (not_not.mpr boundary)
    · rw [div_before positive boundary]

/-- A call that starts and ends well. -/
theorem fatFread_path {rounds len : Nat} (ready : Ready d) (secOk : d.SecOk)
    (path : d.m.Path d.disk first size clusters) (up : ReadUpTo d.m first size clusters fp pos)
    (size_lt : size < 2 ^ 32)
    (well : len = 0 ∨ size ≤ pos ∨ (StartsWell d.m clusters pos ∧
      EndsWell d.m d.disk first clusters (min (pos + len) size)))
    (enough : len < rounds) :
    ∃ bytes fp' d', fatFread rounds fp len d = some (((bytes.length : Int), bytes, fp'), d') ∧
      ReadStep d d' ∧
      bytes = d.m.bytesAt d.disk clusters pos
        (min (pos + len) (d.m.pathEnd clusters size) - pos) ∧
      ReadUpTo d.m first size clusters fp' (min (pos + len) (d.m.pathEnd clusters size)) := by
  have opened : ¬ (!fp.inUse) = true := by simp [up.inUse]
  have before := up.before
  rw [Mount.pathEnd] at before ⊢
  rw [fatFread, Prog.bind_eq_of_run (mount_run d), if_neg opened, up.fileSize, up.curPos]
  by_cases atEnd : size ≤ pos
  · rw [if_pos atEnd]
    have same : min (pos + len) (min size (clusters.length * d.m.secPerClus * 512)) = pos := by
      omega
    rw [same, Nat.sub_self]
    exact ⟨[], fp, d, rfl, ReadStep.refl ready.good secOk, rfl, up⟩
  rw [if_neg atEnd]
  have ends : min len (size - pos) ≠ 0 → StartsWell d.m clusters pos ∧
      EndsWell d.m d.disk first clusters (min (pos + len) size) := fun some =>
    (well.resolve_left (by omega)).resolve_left atEnd
  have place : min len (size - pos) ≠ 0 → fp.InPlace d.m clusters ∧
      fp.curPos < clusters.length * d.m.secPerClus * 512 := fun some =>
    up.place ready path (show pos < min (pos + len) size by omega) (ends some).1 (ends some).2
  have pos_eq := up.curPos
  obtain ⟨d', ⟨code, s'⟩, run, step, delivered⟩ := freadLoop_path rounds ready secOk path
    (show (ReadLoop.mk fp []).bytes.length + min len (size - pos) = min len (size - pos) by simp)
    (show fp.curPos + min len (size - pos) < 2 ^ 32 by omega) place
    (fun short => by
      have past : clusters.length * d.m.secPerClus * 512 < fp.curPos + min len (size - pos) := short
      exact ((ends (by omega)).2.resolve_left (by omega)).2)
    (by omega)
  obtain ⟨isCode, isBytes, handle⟩ := delivered
  dsimp only at isCode isBytes handle
  rw [List.length_nil, Nat.zero_add, pos_eq] at isCode
  rw [List.nil_append, pos_eq] at isBytes
  rw [pos_eq] at handle
  have total : min (min len (size - pos)) (clusters.length * d.m.secPerClus * 512 - pos) =
      min (pos + len) (min size (clusters.length * d.m.secPerClus * 512)) - pos := by omega
  rw [total] at isCode isBytes handle
  have counts : code = (s'.bytes.length : Int) := by rw [isBytes, Mount.length_bytesAt, isCode]
  subst counts
  refine ⟨s'.bytes, s'.fp, d', Prog.bind_eq_of_run run, step, isBytes, ?_⟩
  · rw [handle]
    refine ⟨up.inUse, up.fileSize, ?_, ?_, Nat.min_le_right _ _⟩
    · dsimp only
      omega
    · dsimp only
      have ahead : pos + (min (pos + len) (min size (clusters.length * d.m.secPerClus * 512)) -
          pos) = min (pos + len) (min size (clusters.length * d.m.secPerClus * 512)) := by omega
      rw [ahead]
      split
      · rename_i none
        have same : min (pos + len) (min size (clusters.length * d.m.secPerClus * 512)) = pos := by
          omega
        rw [same]
        exact up.curClus
      · rw [if_neg (by omega)]

/-- A run of calls that start and end well. -/
theorem readAll_path {rounds : Nat} {lengths : List Nat} (ready : Ready d) (secOk : d.SecOk)
    (path : d.m.Path d.disk first size clusters) (up : ReadUpTo d.m first size clusters fp pos)
    (size_lt : size < 2 ^ 32) (meets : CallsMeet d.m d.disk first size clusters pos lengths)
    (enough : ∀ len ∈ lengths, len < rounds) :
    ∃ (chunks : List (List UInt8)) (fp' : FatFile) (d' : Driver),
      readAll rounds lengths fp d = some ((chunks.map counted, fp'), d') ∧ ReadStep d d' ∧
      chunks.flatten = d.m.bytesAt d.disk clusters pos
        (min (pos + lengths.sum) (d.m.pathEnd clusters size) - pos) ∧
      ReadUpTo d.m first size clusters fp'
        (min (pos + lengths.sum) (d.m.pathEnd clusters size)) := by
  induction lengths generalizing fp d pos with
  | nil =>
      have before := up.before
      have same : min (pos + List.sum []) (d.m.pathEnd clusters size) = pos := by
        rw [List.sum_nil]
        omega
      rw [same, Nat.sub_self]
      exact ⟨[], fp, d, rfl, ReadStep.refl ready.good secOk, rfl, up⟩
  | cons len rest ih =>
      have before := up.before
      obtain ⟨bytes, fp₁, d₁, run₁, step₁, isBytes, up₁⟩ :=
        fatFread_path ready secOk path up size_lt meets.1 (enough len List.mem_cons_self)
      have path₁ : d₁.m.Path d₁.disk first size clusters := by
        rw [step₁.m, step₁.disk]
        exact path
      have meets₁ := meets.2
      rw [← step₁.m, ← step₁.disk] at meets₁
      rw [← step₁.m] at up₁
      obtain ⟨chunks, fp₂, d₂, run₂, step₂, isRest, up₂⟩ := ih (step₁.ready ready) step₁.secOk
        path₁ up₁ meets₁ fun len mem => enough len (List.mem_cons_of_mem _ mem)
      rw [step₁.m] at isRest up₂
      rw [step₁.disk] at isRest
      have total : min (min (pos + len) (d.m.pathEnd clusters size) + rest.sum)
          (d.m.pathEnd clusters size) =
            min (pos + (len :: rest).sum) (d.m.pathEnd clusters size) := by
        rw [List.sum_cons]
        omega
      rw [total] at isRest up₂
      refine ⟨bytes :: chunks, fp₂, d₂, ?_, step₁.trans step₂, ?_, up₂⟩
      · rw [readAll, Prog.bind_eq_of_run run₁]
        exact Prog.bind_eq_of_run run₂
      · have sum : (len :: rest).sum = len + rest.sum := List.sum_cons
        have parts : min (pos + (len :: rest).sum) (d.m.pathEnd clusters size) - pos =
            (min (pos + len) (d.m.pathEnd clusters size) - pos) +
              (min (pos + (len :: rest).sum) (d.m.pathEnd clusters size) -
                min (pos + len) (d.m.pathEnd clusters size)) := by omega
        have next : pos + (min (pos + len) (d.m.pathEnd clusters size) - pos) =
            min (pos + len) (d.m.pathEnd clusters size) := by omega
        rw [parts, Mount.bytesAt_add, next, List.flatten_cons, isBytes, isRest]

end Calls

section Volumes

variable {d e : Driver} {first size : Nat} {clusters : List Nat}

/-- The same volume with the same tables: the bytes of its files may be others, and the
buffers are in any state that agrees with it. -/
structure Twin (d e : Driver) : Prop where
  ready : Ready e
  secOk : e.SecOk
  m : e.m = d.m
  capacity : e.blk.capacity = d.blk.capacity
  tables : ∀ lba, ¬ d.m.Outside lba → e.disk lba = d.disk lba

theorem Twin.next (twin : Twin d e) (fats : 0 < d.m.numFats) (c : Nat) :
    e.m.next e.disk c = d.m.next d.disk c := by
  rw [twin.m, Mount.next, ← Mount.link, link_congr twin.tables fats]
  rfl

theorem Twin.behind (twin : Twin d e) (fats : 0 < d.m.numFats) :
    e.m.behind e.disk first clusters = d.m.behind d.disk first clusters := by
  rw [Mount.behind, twin.next fats]
  rfl

theorem Twin.path (twin : Twin d e) (fats : 0 < d.m.numFats)
    (path : d.m.Path d.disk first size clusters) : e.m.Path e.disk first size clusters where
  isCluster := twin.m ▸ path.isCluster
  start := path.start
  linked := fun k inside => (twin.next fats _).trans (path.linked k inside)
  ends := by
    rw [twin.behind fats, twin.m]
    exact path.ends

theorem Twin.callsMeet (twin : Twin d e) (fats : 0 < d.m.numFats) (pos : Nat)
    (lengths : List Nat) :
    CallsMeet e.m e.disk first size clusters pos lengths ↔
      CallsMeet d.m d.disk first size clusters pos lengths := by
  induction lengths generalizing pos with
  | nil => exact Iff.rfl
  | cons len rest ih =>
      rw [CallsMeet, CallsMeet, EndsWell, EndsWell, twin.behind fats, ih, twin.m]

/-- The volume with another first byte in a cluster, and empty buffers. -/
def Driver.stamp (d : Driver) (c : Nat) (byte : UInt8) : Driver :=
  { d with
    blk := { d.blk with
      sec := Function.update d.disk (d.m.dataLba c 0)
        ((d.disk (d.m.dataLba c 0)).blit 0 [byte]) }
    secBufValid := false
    fatBufValid := false }

theorem twin_stamp (ready : Ready d) (c : Nat) (byte : UInt8) : Twin d (d.stamp c byte) where
  ready := ⟨⟨ready.good.1, nofun⟩, ready.sane⟩
  secOk := nofun
  m := rfl
  capacity := rfl
  tables := fun lba inTable => Function.update_of_ne (by
    rintro rfl
    exact inTable (dataLba_outside ready.sane)) _ _

end Volumes

section Strays

variable {d : Driver} {first size pos : Nat} {clusters : List Nat} {fp : FatFile}

/-- The loop delivers bytes behind some others, or fails. -/
def Extends (before : List UInt8) (max : Nat) (result : Int × ReadLoop) : Prop :=
  result.1 = -1 ∨ (result.1 = (result.2.bytes.length : Int) ∧ before <+: result.2.bytes ∧
    (max ≤ result.2.bytes.length ∨ before.length < result.2.bytes.length))

theorem freadRound_extends {before : List UInt8} (m : Mount) (max : Nat) (s : ReadLoop) :
    Triple (fun _ => before <+: s.bytes) (freadRound m max s)
      (Sum.elim (fun next _ => before <+: next.bytes) fun result _ =>
        Extends before max result) := by
  rw [freadRound]
  refine Triple.ite (fun done => ?_) fun more => ?_
  · exact Triple.pure fun _ behind => .inr ⟨rfl, behind, .inl done⟩
  refine Triple.assuming (φ := before <+: s.bytes) (fun _ behind => behind) fun behind => ?_
  have any {α : Type} (f : DriverM α) :
      Triple (fun _ => before <+: s.bytes) f fun _ _ => True := fun _ _ _ _ _ => trivial
  refine Triple.bind (any _) fun _ => Triple.bind (fun _ _ _ _ _ => trivial) fun sector => ?_
  cases sector with
  | none => exact Triple.pure fun _ _ => .inl rfl
  | some sector =>
      refine Triple.bind (fun _ _ _ _ _ => trivial) fun _ => ?_
      have count : 0 < min (512 - inCluster m.clusSize s.fp.curPos % 512)
          (max - s.bytes.length) := by omega
      have longer : before <+: s.bytes ++ sector.slice (inCluster m.clusSize s.fp.curPos % 512)
          (min (512 - inCluster m.clusSize s.fp.curPos % 512) (max - s.bytes.length)) :=
        behind.trans (List.prefix_append _ _)
      have grows := behind.length_le
      refine Triple.ite (fun _ => Triple.bind (fun _ _ _ _ _ => trivial) fun next =>
        Triple.ite (fun _ => ?_) fun _ => ?_) fun _ => ?_
      · refine Triple.pure fun _ _ => .inr ⟨rfl, longer, .inr ?_⟩
        simp only [List.length_append, Buffer.length_slice]
        omega
      · exact Triple.pure fun _ _ => longer
      · exact Triple.pure fun _ _ => longer

theorem freadLoop_extends (m : Mount) (max rounds : Nat) (s : ReadLoop) :
    Triple (fun _ => True) (Prog.loop (freadRound m max) rounds s) fun result _ =>
      Extends s.bytes max result :=
  (Triple.loop (I := fun (next : ReadLoop) _ => s.bytes <+: next.bytes)
    (fun next => freadRound_extends m max next) rounds s).strengthen
    fun _ _ => List.prefix_refl _

/-- Some byte lies behind the end of the path, or is another one than the path has there. -/
def Strays (m : Mount) (disk : Nat → Sector) (clusters : List Nat) (size pos : Nat)
    (bytes : List UInt8) : Prop :=
  ∃ i < bytes.length, m.pathEnd clusters size ≤ pos + i ∨
    bytes.getD i 0 ≠ m.byteAt disk clusters (pos + i)

/-- The loop runs off a path that something else than the mark of a chain follows. -/
theorem freadLoop_past (rounds : Nat) (ready : Ready d) (secOk : d.SecOk)
    (path : d.m.Path d.disk first size clusters) {s s' : ReadLoop} {max : Nat} {code : Int}
    {d' : Driver} (more : s.bytes.length < max)
    (pos_lt : s.fp.curPos + (max - s.bytes.length) < 2 ^ 32)
    (inPlace : s.fp.InPlace d.m clusters)
    (inside : s.fp.curPos < clusters.length * d.m.secPerClus * 512)
    (beyond : clusters.length * d.m.secPerClus * 512 < s.fp.curPos + (max - s.bytes.length))
    (unmarked : d.m.behind d.disk first clusters ≠ noClus)
    (run : Prog.loop (freadRound d.m max) rounds s d = some ((code, s'), d')) :
    code = -1 ∨ (code = (s'.bytes.length : Int) ∧ s.bytes.length +
      (clusters.length * d.m.secPerClus * 512 - s.fp.curPos) < s'.bytes.length) := by
  induction rounds generalizing s d with
  | zero => simp [Prog.loop] at run
  | succ rounds ih =>
      obtain ⟨⟨d₁, run₁, step₁⟩, upTo, -⟩ :=
        freadRound_path ready secOk path more pos_lt inPlace inside
      unfold ReadLoop.onPath at run₁
      dsimp only at run₁
      have length (m : Mount) (disk : Nat → Sector) (x : Nat) :
          (s.along m disk clusters (s.chunk max) x).bytes.length =
            s.bytes.length + s.chunk max := by
        simp [ReadLoop.along]
      rw [if_neg (by omega)] at run₁
      split at run₁
      · rename_i before
        rw [Prog.loop_inl run₁] at run
        have path₁ := path
        rw [← step₁.m, ← step₁.disk] at path₁ unmarked
        rw [← step₁.m] at run
        have further := ih (step₁.ready ready) step₁.secOk path₁
          (by rw [length]; omega)
          (by rw [length]; simp only [ReadLoop.along]; omega)
          (by rw [step₁.m]; rfl)
          (by rw [step₁.m]; exact before)
          (by rw [step₁.m, length]; simp only [ReadLoop.along]; omega)
          unmarked run
        rw [step₁.m, length] at further
        refine further.imp id fun further => ⟨further.1, ?_⟩
        have beyond := further.2
        simp only [ReadLoop.along] at beyond
        omega
      · rw [Prog.loop_inl run₁] at run
        obtain failed | ⟨counts, -, grows⟩ := freadLoop_extends _ _ _ _ d₁ trivial _ d' run
        · exact .inl failed
        · rw [length] at grows
          dsimp only at grows
          exact .inr ⟨counts, by omega⟩

theorem boundary_sector {sectors pos : Nat} (boundary : pos % (sectors * 512) = 0) :
    pos % 512 = 0 ∧ pos / 512 % sectors = 0 := by
  obtain ⟨q, rfl⟩ := Nat.dvd_of_mod_eq_zero boundary
  have whole : sectors * 512 * q = 512 * (sectors * q) := by
    rw [Nat.mul_comm sectors, Nat.mul_assoc]
  rw [whole, Nat.mul_mod_right, Nat.mul_div_cancel_left _ (by decide), Nat.mul_mod_right]
  exact ⟨rfl, rfl⟩

/-- The bytes of the first round stay in front. -/
theorem freadLoop_moved (rounds : Nat) (ready : Ready d) (secOk : d.SecOk) {s s' : ReadLoop}
    {max : Nat} {code : Int} {d' : Driver} (more : s.bytes.length < max)
    (pos_lt : s.fp.curPos + (max - s.bytes.length) < 2 ^ 32)
    (isCluster : d.m.IsCluster s.fp.curClus)
    (run : Prog.loop (freadRound d.m max) rounds s d = some ((code, s'), d')) :
    code = -1 ∨ (s.moved d.m d.disk max).bytes <+: s'.bytes := by
  cases rounds with
  | zero => simp [Prog.loop] at run
  | succ rounds =>
      obtain ⟨d₁, run₁, -⟩ := freadRound_spec ready secOk more pos_lt isCluster
      unfold ReadLoop.outcome at run₁
      dsimp only at run₁
      have behind {s₁ : ReadLoop} (continues : freadRound d.m max s d = some (.inl s₁, d₁))
          (same : s₁.bytes = (s.moved d.m d.disk max).bytes) :
          code = -1 ∨ (s.moved d.m d.disk max).bytes <+: s'.bytes := by
        rw [Prog.loop_inl continues] at run
        rw [← same]
        exact (freadLoop_extends _ _ _ _ d₁ trivial _ d' run).imp id fun longer => longer.2.1
      split at run₁
      · split at run₁
        · rw [Prog.loop_inr run₁] at run
          obtain ⟨same, -⟩ := Prod.mk.inj (Option.some.inj run)
          obtain ⟨-, rfl⟩ := Prod.mk.inj same
          exact .inr (List.prefix_refl _)
        · exact behind run₁ rfl
      · exact behind run₁ rfl

/-- A call that starts or ends badly fails, or delivers a byte that is not there: it may
need another byte in the cluster that is read twice. -/
theorem fatFread_strays {rounds len : Nat} {code : Int} {bytes : List UInt8} {fp' : FatFile}
    {d' : Driver} (ready : Ready d) (secOk : d.SecOk)
    (path : d.m.Path d.disk first size clusters) (up : ReadUpTo d.m first size clusters fp pos)
    (size_lt : size < 2 ^ 32) (some : len ≠ 0) (inFile : pos < size)
    (bad : ¬ (StartsWell d.m clusters pos ∧
      EndsWell d.m d.disk first clusters (min (pos + len) size)))
    (differs : pos < d.m.pathEnd clusters size → ¬ StartsWell d.m clusters pos →
      (d.disk (d.m.dataLba (clusters.getD (pos / d.m.clusSize - 1) 0) 0)).get 0 ≠
        d.m.byteAt d.disk clusters pos)
    (run : fatFread rounds fp len d = Option.some ((code, bytes, fp'), d')) :
    code = -1 ∨ (code = (bytes.length : Int) ∧ Strays d.m d.disk clusters size pos bytes) := by
  have sane := ready.sane
  have sectors := sane.sectors
  have positive : 0 < d.m.secPerClus * 512 := by omega
  have opened : ¬ (!fp.inUse) = true := by simp [up.inUse]
  have before := up.before
  rw [fatFread, Prog.bind_eq_of_run (mount_run d), if_neg opened, up.fileSize, up.curPos,
    if_neg (Nat.not_le.mpr inFile)] at run
  obtain ⟨⟨result, s'⟩, d₁, loop, done⟩ := Prog.bind_eq_some run
  obtain ⟨parts, rfl⟩ := Prod.mk.inj (Option.some.inj done)
  obtain ⟨rfl, stored⟩ := Prod.mk.inj parts
  obtain ⟨rfl, rfl⟩ := Prod.mk.inj stored
  clear done parts
  obtain failed | ⟨counts, -, grows⟩ := freadLoop_extends _ _ _ _ d trivial _ _ loop
  · exact .inl failed
  dsimp only at counts grows
  rw [List.length_nil] at grows
  have nonempty : 0 < s'.bytes.length := by omega
  by_cases atEnd : d.m.pathEnd clusters size ≤ pos
  · exact .inr ⟨counts, 0, nonempty, .inl atEnd⟩
  have inside : pos < d.m.pathEnd clusters size := by omega
  rw [Mount.pathEnd] at before inside
  by_cases starts : StartsWell d.m clusters pos
  · have ends : ¬ EndsWell d.m d.disk first clusters (min (pos + len) size) :=
      fun ends => bad ⟨starts, ends⟩
    rw [EndsWell, not_or, not_and] at ends
    obtain ⟨inPlace, -⟩ := up.place ready path (Nat.lt_succ_self pos) starts (.inl (by omega))
    have clusters_ne : clusters ≠ [] := by
      rintro rfl
      simp at inside
    have pos_eq := up.curPos
    obtain failed | ⟨-, longer⟩ := freadLoop_past rounds ready secOk path
      (show (ReadLoop.mk fp []).bytes.length < min len (size - pos) by
        simp only [List.length_nil]
        omega)
      (by simp only [List.length_nil]; omega) inPlace (by simp only; omega)
      (by simp only [List.length_nil]; omega) (ends.2 clusters_ne) loop
    · exact .inl failed
    · simp only [List.length_nil, pos_eq] at longer
      refine .inr ⟨counts, clusters.length * d.m.secPerClus * 512 - pos, by omega, .inl ?_⟩
      rw [Mount.pathEnd]
      omega
  · refine .inr ⟨counts, 0, nonempty, .inr ?_⟩
    rw [Nat.add_zero]
    have off := differs (by rw [Mount.pathEnd]; exact inside) starts
    rw [StartsWell, not_or, not_or, not_not, clusSize_eq sane] at starts
    obtain ⟨behind, boundary, -⟩ := starts
    rw [clusSize_eq sane] at off
    have here := up.curClus
    rw [if_neg behind, index_eq, div_before_boundary positive behind boundary] at here
    have last : pos / (d.m.secPerClus * 512) - 1 < clusters.length := by
      have index := index_lt sane (show pos < clusters.length * d.m.secPerClus * 512 by omega)
      rw [index_eq] at index
      exact lt_of_le_of_lt (Nat.sub_le _ _) index
    have isCluster : d.m.IsCluster fp.curClus := here ▸ path.isCluster _ last
    have pos_eq := up.curPos
    -- the first round reads the first sector of the cluster that has been read
    obtain failed | ⟨rest, whole⟩ := freadLoop_moved rounds ready secOk
      (show (ReadLoop.mk fp []).bytes.length < min len (size - pos) by
        simp only [List.length_nil]
        omega)
      (by simp only [List.length_nil]; omega) isCluster loop
    · omega
    obtain ⟨offset, sector⟩ := boundary_sector boundary
    simp only [ReadLoop.moved, pos_eq, sector, offset, List.nil_append] at whole
    have count : 0 < (ReadLoop.mk fp []).chunk (min len (size - pos)) :=
      ReadLoop.chunk_pos (by simp only [List.length_nil]; omega)
    rw [← whole, List.getD_append _ _ _ _ (by rwa [Buffer.length_slice]),
      Buffer.getD_slice _ _ count, here]
    exact off

/-- The first call that starts or ends badly. -/
theorem exists_bad_call {m : Mount} {disk : Nat → Sector} {lengths : List Nat}
    (before : pos ≤ m.pathEnd clusters size)
    (bad : ¬ CallsMeet m disk first size clusters pos lengths) :
    ∃ good len rest, lengths = good ++ len :: rest ∧
      CallsMeet m disk first size clusters pos good ∧ len ≠ 0 ∧
      min (pos + good.sum) (m.pathEnd clusters size) < size ∧
      ¬ (StartsWell m clusters (min (pos + good.sum) (m.pathEnd clusters size)) ∧
        EndsWell m disk first clusters
          (min (min (pos + good.sum) (m.pathEnd clusters size) + len) size)) := by
  induction lengths generalizing pos with
  | nil => exact absurd trivial bad
  | cons len rest ih =>
      rw [CallsMeet, not_and_or] at bad
      rcases Classical.em (len = 0 ∨ size ≤ pos ∨ (StartsWell m clusters pos ∧
        EndsWell m disk first clusters (min (pos + len) size))) with well | ill
      · obtain ⟨good, len', rest', rfl, meets, some, inFile, bad⟩ :=
          ih (Nat.min_le_right _ _) (bad.resolve_left (not_not.mpr well))
        have total : min (min (pos + len) (m.pathEnd clusters size) + good.sum)
            (m.pathEnd clusters size) =
              min (pos + (len :: good).sum) (m.pathEnd clusters size) := by
          rw [List.sum_cons]
          omega
        rw [total] at inFile bad
        exact ⟨len :: good, len', rest', rfl, ⟨well, meets⟩, some, inFile, bad⟩
      · rw [not_or, not_or] at ill
        have here : min (pos + [].sum) (m.pathEnd clusters size) = pos := by
          rw [List.sum_nil]
          omega
        refine ⟨[], len, rest, rfl, trivial, ill.1, ?_, ?_⟩
        · rw [here]
          exact Nat.not_le.mp ill.2.1
        · rw [here]
          exact ill.2.2

theorem readAll_cons_some {rounds len : Nat} {rest : List Nat} {d' : Driver} {fp' : FatFile}
    {results : List (Int × List UInt8)}
    (run : readAll rounds (len :: rest) fp d = some ((results, fp'), d')) :
    ∃ code bytes fp₁ d₁ later, fatFread rounds fp len d = some ((code, bytes, fp₁), d₁) ∧
      readAll rounds rest fp₁ d₁ = some ((later, fp'), d') ∧ results = (code, bytes) :: later := by
  obtain ⟨⟨code, bytes, fp₁⟩, d₁, call, behind⟩ := Prog.bind_eq_some run
  obtain ⟨⟨later, fp₂⟩, d₂, others, done⟩ := Prog.bind_eq_some behind
  obtain ⟨same, rfl⟩ := Prod.mk.inj (Option.some.inj done)
  obtain ⟨rfl, rfl⟩ := Prod.mk.inj same
  exact ⟨code, bytes, fp₁, d₁, later, call, others, rfl⟩

/-- A run of calls is a run of its first calls and of those behind them. -/
theorem readAll_append {rounds : Nat} {good rest : List Nat} {d' d'' : Driver}
    {results all : List (Int × List UInt8)} {fp' fp'' : FatFile}
    (first : readAll rounds good fp d = some ((results, fp'), d'))
    (run : readAll rounds (good ++ rest) fp d = some ((all, fp''), d'')) :
    ∃ later, readAll rounds rest fp' d' = some ((later, fp''), d'') ∧ all = results ++ later := by
  induction good generalizing fp d results all with
  | nil =>
      obtain ⟨same, rfl⟩ := Prod.mk.inj (Option.some.inj first)
      obtain ⟨rfl, rfl⟩ := Prod.mk.inj same
      exact ⟨all, run, rfl⟩
  | cons len good ih =>
      obtain ⟨code, bytes, fp₁, d₁, results₁, call, first₁, rfl⟩ := readAll_cons_some first
      obtain ⟨code', bytes', fp₂, d₂, all₁, call', run₁, rfl⟩ := readAll_cons_some run
      obtain ⟨same, rfl⟩ := Prod.mk.inj (Option.some.inj (call.symm.trans call'))
      obtain ⟨rfl, stored⟩ := Prod.mk.inj same
      obtain ⟨rfl, rfl⟩ := Prod.mk.inj stored
      obtain ⟨later, run₂, rfl⟩ := ih first₁ run₁
      exact ⟨later, run₂, rfl⟩

theorem flatten_counted (chunks : List (List UInt8)) :
    ((chunks.map counted).map Prod.snd).flatten = chunks.flatten := by
  simp [counted, Function.comp_def]

/-- A call that strays shows in the bytes together. -/
theorem not_readsPath {rounds len : Nat} {good rest : List Nat} (ready : Ready d)
    (secOk : d.SecOk) (path : d.m.Path d.disk first size clusters)
    (up : ReadUpTo d.m first size clusters fp 0) (size_lt : size < 2 ^ 32)
    (meets : CallsMeet d.m d.disk first size clusters 0 good)
    (enough : ∀ len ∈ good, len < rounds)
    (here : min good.sum (d.m.pathEnd clusters size) = pos) (some : len ≠ 0) (inFile : pos < size)
    (bad : ¬ (StartsWell d.m clusters pos ∧
      EndsWell d.m d.disk first clusters (min (pos + len) size)))
    (differs : pos < d.m.pathEnd clusters size → ¬ StartsWell d.m clusters pos →
      (d.disk (d.m.dataLba (clusters.getD (pos / d.m.clusSize - 1) 0) 0)).get 0 ≠
        d.m.byteAt d.disk clusters pos) :
    ¬ ReadsPath rounds (good ++ len :: rest) fp clusters d := by
  rintro ⟨chunks, fp'', d'', run, isPrefix⟩
  obtain ⟨goodChunks, fp₁, d₁, first, step₁, isGood, up₁⟩ :=
    readAll_path ready secOk path up size_lt meets enough
  rw [Nat.zero_add, here] at isGood up₁
  rw [Nat.sub_zero] at isGood
  obtain ⟨later, run₁, all⟩ := readAll_append first run
  obtain ⟨code, bytes, fp₂, d₂, others, call, -, rfl⟩ := readAll_cons_some run₁
  rw [← step₁.m] at up₁ path bad differs
  rw [← step₁.disk] at path bad differs
  obtain failed | ⟨-, i, inside, stray⟩ := fatFread_strays (step₁.ready ready) step₁.secOk path
    up₁ size_lt some inFile bad differs call
  · have member : (code, bytes) ∈ chunks.map counted := by
      rw [all]
      exact List.mem_append_right _ List.mem_cons_self
    obtain ⟨chunk, -, same⟩ := List.mem_map.mp member
    have counts := congrArg Prod.fst same
    dsimp only [counted] at counts
    omega
  have joined : chunks.flatten =
      goodChunks.flatten ++ (bytes ++ (others.map Prod.snd).flatten) := by
    rw [← flatten_counted chunks, all]
    simp [counted, Function.comp_def]
  have length : goodChunks.flatten.length = pos := by rw [isGood, Mount.length_bytesAt]
  have reach := congrArg List.length isPrefix
  rw [joined, List.length_append, List.length_append, Mount.length_bytesAt, length] at reach
  rw [step₁.m, step₁.disk] at stray
  obtain past | other := stray
  · rw [up.fileSize] at reach
    omega
  · refine other ?_
    have at_i := congrArg (fun bytes => bytes.getD (pos + i) 0) isPrefix
    rw [joined, List.getD_append_right _ _ _ _ (by omega), length, Nat.add_sub_cancel_left,
      List.getD_append _ _ _ _ inside, getD_bytesAt, if_pos (by omega), Nat.zero_add] at at_i
    exact at_i

/-- Where the cluster that was read last is not the one of the position, a stamp on the
latter shows. -/
theorem stamp_differs (ready : Ready d) (path : d.m.Path d.disk first size clusters)
    (inside : pos < d.m.pathEnd clusters size) (starts : ¬ StartsWell d.m clusters pos) :
    let old := clusters.getD (pos / d.m.clusSize - 1) 0
    let e := d.stamp (clusters.getD (pos / d.m.clusSize) 0)
      ((d.disk (d.m.dataLba old 0)).get 0 + 1)
    (e.disk (d.m.dataLba old 0)).get 0 ≠ d.m.byteAt e.disk clusters pos := by
  intro old e
  have sane := ready.sane
  have size_eq := clusSize_eq sane
  rw [Mount.pathEnd] at inside
  rw [StartsWell, not_or, not_or, not_not] at starts
  obtain ⟨-, boundary, other⟩ := starts
  rw [size_eq] at boundary
  obtain ⟨offset, sector⟩ := boundary_sector boundary
  have index := index_lt sane (show pos < clusters.length * d.m.secPerClus * 512 by omega)
  have same : pos / 512 / d.m.secPerClus = pos / d.m.clusSize := by rw [index_eq, size_eq]
  rw [same] at index
  have isDue := path.isCluster _ index
  have isOld : d.m.IsCluster old := path.isCluster _ (lt_of_le_of_lt (Nat.sub_le _ _) index)
  have apart : d.m.dataLba old 0 ≠ d.m.dataLba (clusters.getD (pos / d.m.clusSize) 0) 0 :=
    fun lba => other (dataLba_inj isOld isDue sane.sectors sane.sectors lba).1
  have kept : e.disk (d.m.dataLba old 0) = d.disk (d.m.dataLba old 0) :=
    Function.update_of_ne apart _ _
  have stamped : e.disk (d.m.dataLba (clusters.getD (pos / d.m.clusSize) 0) 0) =
      (d.disk (d.m.dataLba (clusters.getD (pos / d.m.clusSize) 0) 0)).blit 0
        [(d.disk (d.m.dataLba old 0)).get 0 + 1] := Function.update_self ..
  rw [Mount.byteAt, same, offset, sector, kept, stamped, Buffer.get_blit_singleton _ (by decide),
    if_pos rfl]
  intro equal
  simp at equal

end Strays

section Opened

variable {d₀ d : Driver} {fp₀ fp : FatFile} {path : List UInt8} {rounds₀ : Nat}

/-- What `fat_fopen` leaves for the calls. -/
theorem fatFopen_readUpTo (ready : Ready d₀) (secOk : d₀.SecOk)
    (opened : fatFopen rounds₀ path fp₀ d₀ = some ((0, fp), d)) (clusters : List Nat) :
    Ready d ∧ d.SecOk ∧ fp.fileSize < 2 ^ 32 ∧
      ∀ m, ReadUpTo m fp.firstClus fp.fileSize clusters fp 0 := by
  obtain ⟨slot, -, blk, here, de, entry, rfl⟩ := fatFopen_opened opened
  refine ⟨⟨?_, ?_⟩, ?_, ?_, fun m => ?_⟩
  · exact fatFopen_keeps readFatSec_good rounds₀ path fp₀ d₀ ready.good _ d opened
  · rw [blk, here]
    exact ready.sane
  · exact fatFopen_keeps readFatSec_secOk rounds₀ path fp₀ d₀ secOk _ d opened
  · have disk := entry.entry
    subst disk
    exact Buffer.loadLe_lt _ _ 4
  · exact ⟨rfl, rfl, rfl, rfl, Nat.zero_le _⟩

/-- Successive calls deliver the bytes of the path, on every volume with these tables,
exactly when each call with bytes to deliver begins at position 0, within a cluster, or in a
cluster that is linked to itself, and leaves the path at the mark of a chain only. -/
theorem readAll_iff {rounds : Nat} {clusters lengths : List Nat} (ready : Ready d₀)
    (secOk : d₀.SecOk) (opened : fatFopen rounds₀ path fp₀ d₀ = some ((0, fp), d))
    (onDisk : d.m.Path d.disk fp.firstClus fp.fileSize clusters)
    (enough : ∀ len ∈ lengths, len < rounds) :
    (∀ e, Twin d e → ReadsPath rounds lengths fp clusters e) ↔
      CallsMeet d.m d.disk fp.firstClus fp.fileSize clusters 0 lengths := by
  obtain ⟨ready, secOk, size_lt, up⟩ := fatFopen_readUpTo ready secOk opened clusters
  have fats := ready.sane.fats
  refine ⟨fun reads => ?_, fun meets e twin => ?_⟩
  · by_contra bad
    obtain ⟨good, len, rest, rfl, meets, some, inFile, bad⟩ :=
      exists_bad_call (Nat.zero_le _) bad
    rw [Nat.zero_add] at inFile bad
    -- the byte that would come next is made another one than the byte that comes
    let pos := min good.sum (d.m.pathEnd clusters fp.fileSize)
    let old := clusters.getD (pos / d.m.clusSize - 1) 0
    let e := d.stamp (clusters.getD (pos / d.m.clusSize) 0) ((d.disk (d.m.dataLba old 0)).get 0 + 1)
    have twin : Twin d e := twin_stamp ready _ _
    refine not_readsPath twin.ready twin.secOk (twin.path fats onDisk) (up e.m) size_lt
      ((twin.callsMeet fats 0 good).mpr meets)
      (fun len mem => enough len (List.mem_append_left _ mem)) rfl some inFile ?_ ?_ (reads e twin)
    · rw [EndsWell, twin.behind fats]
      exact bad
    · exact stamp_differs ready onDisk
  · obtain ⟨chunks, fp', d', run, -, isPrefix, -⟩ := readAll_path twin.ready twin.secOk
      (twin.path fats onDisk) (up e.m) size_lt ((twin.callsMeet fats 0 lengths).mpr meets) enough
    rw [Nat.zero_add, Nat.sub_zero] at isPrefix
    exact ⟨chunks, fp', d', run, isPrefix⟩

/-- The file of three clusters, whose second one starts with another byte than the first. -/
def stampedDriver : Driver := smallDriver.stamp 3 1

theorem open_run : (fatFopen 8 [65] FatFile.unused stampedDriver).map
    (fun result => (result.1.1, result.1.2.firstClus, result.1.2.fileSize)) =
      some (0, 2, 1536) := by
  decide +kernel

theorem stampedFile : FileOnDisk smallMount stampedDriver.disk [2, 3, 4] 1536 := by
  have links : (smallMount.link stampedDriver.disk 2, smallMount.link stampedDriver.disk 3,
      smallMount.link stampedDriver.disk 4) = (3, 4, 0xFFF) := by
    decide +kernel
  obtain ⟨second, links⟩ := Prod.mk.inj links
  obtain ⟨third, last⟩ := Prod.mk.inj links
  refine ⟨⟨fun k inside => ?_, fun k inside => ?_, fun k behind => ?_⟩, by decide, by decide⟩
  · match k, inside with
    | 0, _ => exact ⟨by decide, by decide⟩
    | 1, _ => exact ⟨by decide, by decide⟩
    | 2, _ => exact ⟨by decide, by decide⟩
  · match k, inside with
    | 0, _ => exact second
    | 1, _ => exact third
  · obtain rfl : k = 2 := Nat.succ.inj behind
    exact last ▸ (by decide : smallMount.mark ≤ 0xFFF)

/-- `fat_fopen` finds the file. -/
theorem stampedDriver_opened : ∃ fp d,
    fatFopen 8 [65] FatFile.unused stampedDriver = some ((0, fp), d) ∧
    fp.firstClus = 2 ∧ fp.fileSize = 1536 ∧ d.m = smallMount ∧ d.disk = stampedDriver.disk := by
  obtain ⟨⟨⟨code, fp⟩, d⟩, opened, ends⟩ := Option.map_eq_some_iff.mp open_run
  obtain ⟨rfl, sizes⟩ := Prod.mk.inj ends
  obtain ⟨first, size⟩ := Prod.mk.inj sizes
  obtain ⟨-, -, blk, here, -⟩ := fatFopen_opened opened
  exact ⟨fp, d, opened, first, size, here, congrArg BlkDev.sec blk⟩

/-- Calls that end within the clusters. -/
theorem readAll_iff_inside : ∃ fp d,
    fatFopen 8 [65] FatFile.unused stampedDriver = some ((0, fp), d) ∧
    ∀ e, Twin d e → ReadsPath 1001 [100, 1000, 500] fp [2, 3, 4] e := by
  obtain ⟨fp, d, opened, first, size, here, disk⟩ := stampedDriver_opened
  have twin := twin_stamp smallDriver_ready 3 1
  have onDisk : d.m.Path d.disk fp.firstClus fp.fileSize [2, 3, 4] := by
    rw [here, disk, first, size]
    exact stampedFile.path smallMount_sane fun _ => rfl
  refine ⟨fp, d, opened, (readAll_iff twin.ready twin.secOk opened onDisk (by decide)).mpr ?_⟩
  rw [here, size]
  exact ⟨.inr (.inr ⟨.inl rfl, .inl (by decide)⟩),
    .inr (.inr ⟨.inr (.inl (by decide)), .inl (by decide)⟩),
    .inr (.inr ⟨.inr (.inl (by decide)), .inl (by decide)⟩), trivial⟩

/-- The second call begins on a boundary and delivers the byte at the start of the cluster
before it. -/
theorem read_after_boundary_repeats : ∃ fp d,
    fatFopen 8 [65] FatFile.unused stampedDriver = some ((0, fp), d) ∧
    FileOnDisk d.m d.disk [2, 3, 4] fp.fileSize ∧
    ¬ ReadsPath 600 [512, 1] fp [2, 3, 4] d := by
  have delivered : ((fatFopen 8 [65] FatFile.unused >>= fun opened =>
      readAll 600 [512, 1] opened.2) stampedDriver).map
        (fun result => (result.1.1.map Prod.snd).flatten.getD 512 7) = some 0 := by
    decide +kernel
  obtain ⟨fp, d, opened, first, size, here, disk⟩ := stampedDriver_opened
  refine ⟨fp, d, opened, ?_, ?_⟩
  · rw [here, disk, size]
    exact stampedFile
  · rintro ⟨chunks, fp', d', run, isPrefix⟩
    rw [Prog.bind_eq_of_run opened, run] at delivered
    have repeated := Option.some.inj delivered
    dsimp only at repeated
    rw [flatten_counted, isPrefix, getD_bytesAt, here, disk, size, if_pos (by decide)] at repeated
    have due : smallMount.byteAt stampedDriver.disk [2, 3, 4] (0 + 512) = 1 := by decide +kernel
    exact absurd (due.symm.trans repeated) (by decide)

end Opened

end Ncd15.Fat
