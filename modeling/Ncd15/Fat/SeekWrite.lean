import Ncd15.Fat.StaleLinks
import Ncd15.Library.Splice

/-!
# Writing from a position on

What `fat_fseek` leaves to `fat_fread` and `fat_fwrite`, and what a write does to the
contents of a file.  It follows the links of the chain and appends clusters behind its
end.
-/

namespace Ncd15.Fat

open Ncd15.Library

section Bytes

variable {m : Mount} {disk disk' : Nat → Sector} {clusters clusters' : List Nat}
  {capacity pos size : Nat} {bytes : List UInt8}

theorem getElem?_bytesAt (length i : Nat) :
    (m.bytesAt disk clusters 0 length)[i]? =
      if i < length then some (m.byteAt disk clusters i) else none := by
  unfold Mount.bytesAt
  split
  · rename_i inside
    simp [inside]
  · rename_i outside
    simp [outside]

/-- Bytes replaced one by one are a part of the contents replaced. -/
theorem bytesAt_splice (inside : pos ≤ size)
    (written : ∀ x, x < max size (pos + bytes.length) → m.byteAt disk' clusters' x =
      if pos ≤ x ∧ x < pos + bytes.length then bytes.getD (x - pos) 0
      else m.byteAt disk clusters x) :
    m.bytesAt disk' clusters' 0 (max size (pos + bytes.length)) =
      splice (m.bytesAt disk clusters 0 size) pos bytes := by
  apply List.ext_getElem?
  intro x
  rw [getElem?_splice (by rwa [Mount.length_bytesAt]), getElem?_bytesAt, getElem?_bytesAt]
  by_cases covered : x < max size (pos + bytes.length)
  · rw [if_pos covered, written x covered]
    by_cases within : pos ≤ x ∧ x < pos + bytes.length
    · have index : x - pos < bytes.length := by omega
      rw [if_pos within, if_pos within, List.getD_eq_getElem _ _ index,
        List.getElem?_eq_getElem index]
    · rw [if_neg within, if_neg within, if_pos (by omega)]
  · rw [if_neg covered, if_neg (by omega), if_neg (by omega)]

/-- Bytes stored in one sector of a chain. -/
theorem Mount.Chain.byteAt_stored (sane : m.Sane capacity) (chain : m.Chain disk clusters)
    (inChain : pos < clusters.length * (m.secPerClus * 512))
    (inSector : pos % 512 + bytes.length ≤ 512) {x : Nat}
    (inside : x < clusters.length * (m.secPerClus * 512)) :
    m.byteAt (Function.update disk (m.sectorAt clusters pos)
        ((disk (m.sectorAt clusters pos)).blit (pos % 512) bytes)) clusters x =
      if pos ≤ x ∧ x < pos + bytes.length then bytes.getD (x - pos) 0
      else m.byteAt disk clusters x := by
  have nodup := chain.nodup sane
  rw [← Nat.mul_assoc] at inChain inside
  change (Function.update disk _ _ (m.sectorAt clusters x)).get (x % 512) = _
  by_cases shared : x / 512 = pos / 512
  · have here : m.sectorAt clusters x = m.sectorAt clusters pos := by
      rw [Mount.sectorAt, Mount.sectorAt, shared]
    rw [here, Function.update_self]
    by_cases within : pos ≤ x ∧ x < pos + bytes.length
    · rw [if_pos within, Buffer.get_blit_of_mem _ (by omega) (by omega) inSector]
      congr 1
      omega
    · rw [if_neg within, Buffer.get_blit_of_disjoint _ (by omega), ← here]
      rfl
  · rw [if_neg (by omega), Function.update_of_ne]
    · rfl
    · intro same
      exact shared (chain.sectorAt_inj sane nodup (index_lt sane inside)
        (index_lt sane inChain) same)

end Bytes

section Files

/-- A file on a volume: its chain, with room for its bytes, begins where the handle says.
The shared buffer may hold anything. -/
structure FileAt (m : Mount) (capacity : Nat) (clusters : List Nat) (fp : FatFile) (d : Driver) :
    Prop where
  here : d.m = m
  size : d.blk.capacity = capacity
  free : Free d.bare
  chain : m.Chain d.disk clusters
  first : fp.firstClus = clusters.getD 0 0
  covered : fp.fileSize ≤ clusters.length * (m.secPerClus * 512)

/-- The handle stands in the cluster of its position, not behind the end of the file. -/
structure Seated (m : Mount) (capacity : Nat) (clusters : List Nat) (fp : FatFile) (d : Driver) :
    Prop where
  file : FileAt m capacity clusters fp d
  inPlace : fp.InPlace m clusters
  inChain : fp.curPos < clusters.length * (m.secPerClus * 512)
  inFile : fp.curPos ≤ fp.fileSize

/-- The clusters of a file, and those it can get. -/
def Mount.room (m : Mount) (disk : Nat → Sector) (clusters : List Nat) : Nat :=
  (clusters.length + (m.freeClusters disk).card) * (m.secPerClus * 512)

/-- Bytes written at the position of a handle: they are in the contents from there on, and
no cluster is lost. -/
structure Spliced (m : Mount) (capacity : Nat) (clusters : List Nat) (fp : FatFile) (d : Driver)
    (bytes : List UInt8) (clusters' : List Nat) (fp' : FatFile) (d' : Driver) : Prop where
  file : FileAt m capacity clusters' fp' d'
  pos : fp'.curPos = fp.curPos + bytes.length
  fileSize : fp'.fileSize = max fp.fileSize (fp.curPos + bytes.length)
  room : m.room d'.disk clusters' = m.room d.disk clusters
  longer : clusters <+: clusters'
  stored : m.bytesAt d'.disk clusters' 0 fp'.fileSize =
    splice (m.bytesAt d.disk clusters 0 fp.fileSize) fp.curPos bytes

variable {m : Mount} {capacity : Nat} {clusters clusters₁ clusters₂ : List Nat}
  {fp fp₁ fp₂ : FatFile} {d d' d₁ d₂ : Driver} {bytes first second rest : List UInt8}

theorem FileAt.sane (file : FileAt m capacity clusters fp d) : m.Sane capacity := by
  have sane : d.m.Sane d.blk.capacity := file.free.1.sane
  rwa [file.here, file.size] at sane

theorem Spliced.refl (file : FileAt m capacity clusters fp d) (inFile : fp.curPos ≤ fp.fileSize) :
    Spliced m capacity clusters fp d [] clusters fp d where
  file := file
  pos := rfl
  fileSize := (Nat.max_eq_left inFile).symm
  room := rfl
  longer := List.prefix_rfl
  stored := (splice_nil _ _).symm

theorem Spliced.trans (inFile : fp.curPos ≤ fp.fileSize)
    (spliced₁ : Spliced m capacity clusters fp d first clusters₁ fp₁ d₁)
    (spliced₂ : Spliced m capacity clusters₁ fp₁ d₁ second clusters₂ fp₂ d₂) :
    Spliced m capacity clusters fp d (first ++ second) clusters₂ fp₂ d₂ where
  file := spliced₂.file
  pos := by rw [spliced₂.pos, spliced₁.pos, List.length_append, Nat.add_assoc]
  fileSize := by
    rw [spliced₂.fileSize, spliced₁.fileSize, spliced₁.pos, List.length_append]
    omega
  room := spliced₂.room.trans spliced₁.room
  longer := spliced₁.longer.trans spliced₂.longer
  stored := by
    rw [spliced₂.stored, spliced₁.stored, spliced₁.pos,
      splice_splice (by rwa [Mount.length_bytesAt])]

theorem Seated.index (seated : Seated m capacity clusters fp d) :
    fp.curPos / 512 / m.secPerClus < clusters.length := by
  have inChain := seated.inChain
  rw [← Nat.mul_assoc] at inChain
  exact index_lt seated.file.sane inChain

theorem Seated.isCluster (seated : Seated m capacity clusters fp d) : m.IsCluster fp.curClus := by
  rw [seated.inPlace]
  exact seated.file.chain.isCluster _ seated.index

theorem Seated.attached (seated : Seated m capacity clusters fp d) : fp.firstClus ≠ 0 := by
  have isCluster := seated.file.chain.isCluster 0 (Nat.zero_lt_of_lt seated.index)
  rw [seated.file.first]
  have atLeast := isCluster.1
  omega

/-- The bytes of one sector. -/
theorem Seated.chunkStored (seated : Seated m capacity clusters fp d) (rest : List UInt8) :
    Spliced m capacity clusters fp d (fp.chunk rest) clusters
      (fp.advanced (fp.chunk rest).length) (d.chunkStored fp rest) := by
  have sane := seated.file.sane
  have isCluster := seated.isCluster
  have length := fp.length_chunk rest
  have inSector : fp.curPos % 512 + (fp.chunk rest).length ≤ 512 := by omega
  have within := within_cluster sane.sectors inSector
  have inChain := seated.inChain
  have here := seated.file.here
  have lba : fp.lba m = m.sectorAt clusters fp.curPos := by
    rw [FatFile.lba, Mount.sectorAt, seated.inPlace]
  have disk : (d.chunkStored fp rest).disk = Function.update d.disk (m.sectorAt clusters fp.curPos)
      ((d.disk (m.sectorAt clusters fp.curPos)).blit (fp.curPos % 512) (fp.chunk rest)) := by
    rw [← lba, ← here]
    rfl
  have has : d.bare.blk.Has (fp.lba d.m) := by
    rw [here, FatFile.lba]
    have inside := dataLba_lt sane isCluster (sector_in_cluster sane fp.curPos)
    rw [← seated.file.size] at inside
    exact has_of_lt (b := d.blk) seated.file.free.1.sane inside
  have step := withData_step seated.file.free has
    ((d.disk (fp.lba d.m)).blit (fp.curPos % 512) (fp.chunk rest))
  have links (c : Nat) : m.link (d.chunkStored fp rest).disk c = m.link d.disk c := by
    refine link_congr (fun lba' inTable => ?_) sane.fats
    rw [disk, Function.update_of_ne]
    rintro rfl
    rw [← lba] at inTable
    exact inTable (dataLba_outside sane)
  -- the chunk ends in the cluster it begins in
  have ends : fp.curPos + (fp.chunk rest).length ≤ clusters.length * (m.secPerClus * 512) := by
    have quotient : fp.curPos / (m.secPerClus * 512) < clusters.length :=
      Nat.div_lt_of_lt_mul (by rwa [Nat.mul_comm])
    have split := Nat.div_add_mod fp.curPos (m.secPerClus * 512)
    have next := Nat.mul_le_mul_right (m.secPerClus * 512) quotient
    rw [Nat.mul_comm] at split
    rw [Nat.succ_mul] at next
    omega
  have covered := seated.file.covered
  refine ⟨⟨here, seated.file.size, step.free, seated.file.chain.congr links, seated.file.first,
    Nat.max_le.mpr ⟨covered, ends⟩⟩, rfl, rfl, ?_, List.prefix_rfl, ?_⟩
  · rw [Mount.room, Mount.room, freeClusters_congr links]
  · apply bytesAt_splice seated.inFile
    intro x inside
    rw [disk]
    exact seated.file.chain.byteAt_stored sane inChain inSector (by omega)

theorem FileAt.hasEntry (file : FileAt m capacity clusters fp d) {c : Nat}
    (isCluster : m.IsCluster c) : d.HasEntry c := by
  have here := file.here
  subst here
  exact hasEntry_of_sane (d := d.bare) file.free.1.sane isCluster.2

/-- Only the shared buffer and the place of the handle change. -/
theorem FileAt.moved (file : FileAt m capacity clusters fp d) (blk : d'.blk = d.blk)
    (here : d'.m = d.m) (c : Nat) : FileAt m capacity clusters { fp with curClus := c } d' where
  here := here.trans file.here
  size := by rw [blk]; exact file.size
  free := bare_free file.free here (by rw [blk]) (by rw [blk]; exact file.free.1.good.1.faults)
  chain := by
    have chain := file.chain
    rwa [Driver.disk, ← blk] at chain
  first := file.first
  covered := file.covered

theorem FileAt.spliced_moved (file : FileAt m capacity clusters fp d)
    (inFile : fp.curPos ≤ fp.fileSize) (blk : d'.blk = d.blk) (here : d'.m = d.m) (c : Nat) :
    Spliced m capacity clusters fp d [] clusters { fp with curClus := c } d' where
  file := file.moved blk here c
  pos := rfl
  fileSize := (Nat.max_eq_left inFile).symm
  room := by rw [Driver.disk, blk]
  longer := List.prefix_rfl
  stored := by
    rw [splice_nil, Driver.disk, blk]

/-- The link of the cluster of a handle can be read. -/
def FatFile.Fresh (fp : FatFile) (m : Mount) (d : Driver) : Prop :=
  d.fatBufValid = true → d.fatBufLba = m.entryLba fp.curClus → m.Straddles fp.curClus

/-- At the end of a cluster: into the next one of the chain. -/
theorem FileAt.follows (file : FileAt m capacity clusters fp d) {k : Nat}
    (current : fp.curClus = clusters.getD k 0) (inside : k + 1 < clusters.length)
    (fresh : fp.Fresh m d) (written : Int) :
    ∃ d', nextForWrite fp written d =
        some (.ok { fp with curClus := clusters.getD (k + 1) 0 }, d') ∧
      d'.blk = d.blk ∧ d'.m = d.m ∧ d'.fatBufValid = true ∧
      d'.fatBufLba = m.lastSec fp.curClus := by
  have isCluster : m.IsCluster fp.curClus := by
    rw [current]
    exact file.chain.isCluster k (by omega)
  have hasEntry := file.hasEntry isCluster
  have here := file.here
  subst here
  obtain ⟨e, run, step, valid, place⟩ :=
    nextForWrite_follows (d := d.bare) file.free file.chain current inside written
  obtain ⟨d', run', same⟩ := nextForWrite_refetched hasEntry fresh run
  exact ⟨d', run', ((congrArg Driver.blk same :) : d'.blk = e.blk).trans step.blk,
    ((congrArg Driver.m same :) : d'.m = e.m).trans step.m,
    ((congrArg Driver.fatBufValid same :) : d'.fatBufValid = e.fatBufValid).trans valid,
    ((congrArg Driver.fatBufLba same :) : d'.fatBufLba = e.fatBufLba).trans place⟩

/-- At the end of the chain: into a new cluster. -/
theorem FileAt.links (file : FileAt m capacity clusters fp d) {k : Nat}
    (current : fp.curClus = clusters.getD k 0) (last : k + 1 = clusters.length)
    (atEnd : fp.curPos = clusters.length * (m.secPerClus * 512))
    (inFile : fp.curPos ≤ fp.fileSize) (fresh : fp.Fresh m d)
    (space : 0 < (m.freeClusters d.disk).card) (written : Int) :
    ∃ nc d', nextForWrite fp written d = some (.ok { fp with curClus := nc }, d') ∧
      Spliced m capacity clusters fp d [] (clusters ++ [nc]) { fp with curClus := nc } d' ∧
      d'.fatBufValid = false := by
  have sane := file.sane
  have isCluster : m.IsCluster fp.curClus := by
    rw [current]
    exact file.chain.isCluster k (by omega)
  have hasEntry := file.hasEntry isCluster
  have covered := file.covered
  obtain ⟨rfl, size, free, chain, first, -⟩ := file
  have nonempty : clusters ≠ [] := List.length_pos_iff.mp (by omega)
  have tail : fp.curClus = clusters.getD (clusters.length - 1) 0 := by
    rw [current]
    congr 1
    omega
  obtain ⟨nc, e, run, step, chain', card, same⟩ :=
    nextForWrite_links (d := d.bare) free chain nonempty tail space written
  obtain ⟨d', run', alike⟩ := nextForWrite_refetched hasEntry fresh run
  have blk : d'.blk = e.blk := (congrArg Driver.blk alike :)
  have here : d'.m = e.m := (congrArg Driver.m alike :)
  have valid : d'.fatBufValid = e.fatBufValid := (congrArg Driver.fatBufValid alike :)
  have disk : d'.disk = e.disk := congrArg BlkDev.sec blk
  have spare : (d.m.freeClusters e.disk).card + 1 = (d.m.freeClusters d.disk).card := card
  refine ⟨nc, d', run', ⟨⟨here.trans step.m, ?_, ?_, ?_, ?_, ?_⟩, rfl,
    (Nat.max_eq_left inFile).symm, ?_, List.prefix_append _ _, ?_⟩, valid.trans step.free.2⟩
  · rw [blk]
    exact step.capacity.trans size
  · exact bare_free free (here.trans step.m) (by rw [blk]; exact step.capacity)
      (by rw [blk]; exact step.free.1.good.1.faults)
  · rwa [disk]
  · rw [List.getD_append _ _ _ _ (by omega)]
    exact first
  · rw [List.length_append, List.length_singleton, Nat.succ_mul]
    exact Nat.le_add_right_of_le covered
  · rw [Mount.room, Mount.room, disk, List.length_append, List.length_singleton]
    congr 1
    omega
  · rw [disk, splice_nil]
    exact Mount.bytesAt_snoc (by rwa [Nat.mul_assoc]) sane same

/-- At the end of the chain of a full volume. -/
theorem FileAt.stuck (file : FileAt m capacity clusters fp d) {k : Nat}
    (current : fp.curClus = clusters.getD k 0) (last : k + 1 = clusters.length)
    (fresh : fp.Fresh m d) (full : (m.freeClusters d.disk).card = 0) (written : Int) :
    ∃ d', nextForWrite fp written d = some (.error (written, fp), d') ∧ d'.blk = d.blk ∧
      d'.m = d.m := by
  have isCluster : m.IsCluster fp.curClus := by
    rw [current]
    exact file.chain.isCluster k (by omega)
  have hasEntry := file.hasEntry isCluster
  have here := file.here
  subst here
  obtain ⟨e, run, step⟩ :=
    nextForWrite_full (d := d.bare) file.free file.chain current last full written
  obtain ⟨d', run', same⟩ := nextForWrite_refetched hasEntry fresh run
  exact ⟨d', run', ((congrArg Driver.blk same :) : d'.blk = e.blk).trans step.blk,
    ((congrArg Driver.m same :) : d'.m = e.m).trans step.m⟩

end Files

section Rounds

/-- The link at an index of a chain is read from the sector that was read last for the
link before it, over which data has been loaded. -/
def Mount.StaleLink (m : Mount) (chain : List Nat) (k : Nat) : Prop :=
  m.entryLba (chain.getD k 0) = m.lastSec (chain.getD (k - 1) 0) ∧
    ¬ m.Straddles (chain.getD k 0)

/-- The shared buffer of a call which began in the cluster of index `start` of a chain, in
the cluster of index `k`: at the link that led there, or at none. -/
def LinkBuffered (m : Mount) (chain : List Nat) (start k : Nat) (d : Driver) : Prop :=
  if start < k ∧ k < chain.length then
    d.fatBufValid = true ∧ d.fatBufLba = m.lastSec (chain.getD (k - 1) 0)
  else d.fatBufValid = false

/-- A call of `fat_fwrite` in the middle, which began in the cluster of index `start` of
a chain. -/
structure Midway (m : Mount) (capacity : Nat) (chain : List Nat) (start : Nat)
    (clusters : List Nat) (fp : FatFile) (d : Driver) : Prop where
  seated : Seated m capacity clusters fp d
  longer : chain <+: clusters
  length : clusters.length = max chain.length (fp.curPos / (m.secPerClus * 512) + 1)
  after : start ≤ fp.curPos / (m.secPerClus * 512)
  buffer : LinkBuffered m chain start (fp.curPos / (m.secPerClus * 512)) d

variable {m : Mount} {capacity start : Nat} {chain clusters : List Nat} {fp : FatFile}
  {d : Driver} {rest front back : List UInt8}

theorem getD_extended (longer : chain <+: clusters) {k : Nat} (inside : k < chain.length) :
    clusters.getD k 0 = chain.getD k 0 := by
  obtain ⟨tail, rfl⟩ := longer
  exact List.getD_append _ _ _ _ inside

theorem lastSec_ne_data (sane : m.Sane capacity) {c c' s : Nat} (isCluster : m.IsCluster c) :
    m.lastSec c ≠ m.dataLba c' s := by
  have places := sane.places isCluster.2
  have outside : m.Outside (m.dataLba c' s) := dataLba_outside sane
  intro same
  unfold Mount.lastSec at same
  split at same
  · rename_i straddles
    have ne := outside_ne outside sane.fats (places.spill straddles)
    rw [places.succ_eq straddles] at same
    omega
  · have ne := outside_ne outside sane.fats places.inTable
    rw [places.entryLba_eq] at same
    omega

theorem Midway.current (mid : Midway m capacity chain start clusters fp d) :
    fp.curClus = clusters.getD (fp.curPos / (m.secPerClus * 512)) 0 := by
  have inPlace := mid.seated.inPlace
  rwa [FatFile.InPlace, Nat.div_div_eq_div_mul, Nat.mul_comm 512] at inPlace

theorem Midway.index (mid : Midway m capacity chain start clusters fp d) :
    fp.curPos / (m.secPerClus * 512) < clusters.length := by
  have length := mid.length
  omega

/-- The sector of data is not the sector in the buffer. -/
theorem Midway.buffer_stored (mid : Midway m capacity chain start clusters fp d)
    (rest : List UInt8) :
    (d.chunkStored fp rest).fatBufValid = d.fatBufValid ∧
      (d.chunkStored fp rest).fatBufLba = d.fatBufLba := by
  refine ⟨?_, rfl⟩
  have sane := mid.seated.file.sane
  have here := mid.seated.file.here
  have buffer := mid.buffer
  unfold LinkBuffered at buffer
  change (d.fatBufValid && decide (d.fatBufLba ≠ fp.lba d.m)) = d.fatBufValid
  split at buffer
  · rename_i within
    have before : fp.curPos / (m.secPerClus * 512) - 1 < clusters.length := by
      have index := mid.index
      omega
    have isCluster := mid.seated.file.chain.isCluster _ before
    rw [getD_extended mid.longer (by omega)] at isCluster
    have ne : d.fatBufLba ≠ fp.lba d.m := by
      rw [buffer.2, here]
      exact lastSec_ne_data sane isCluster
    simp [ne]
  · simp [buffer]

/-- The link at the end of the cluster can be read, unless it is stale. -/
theorem Midway.fresh (mid : Midway m capacity chain start clusters fp d) (rest : List UInt8)
    (fresh : start < fp.curPos / (m.secPerClus * 512) →
      fp.curPos / (m.secPerClus * 512) < chain.length →
      ¬ m.StaleLink chain (fp.curPos / (m.secPerClus * 512))) (count : Nat) :
    (fp.advanced count).Fresh m (d.chunkStored fp rest) := by
  obtain ⟨sameValid, sameLba⟩ := mid.buffer_stored rest
  intro valid place
  rw [sameValid] at valid
  rw [sameLba] at place
  have buffer := mid.buffer
  unfold LinkBuffered at buffer
  split at buffer
  · rename_i within
    by_contra whole
    have current := mid.current
    rw [getD_extended mid.longer within.2] at current
    change d.fatBufLba = m.entryLba fp.curClus at place
    change ¬ m.Straddles fp.curClus at whole
    rw [current] at place whole
    exact fresh within.1 within.2 ⟨place.symm.trans buffer.2, whole⟩
  · rw [buffer] at valid
    exact absurd valid Bool.false_ne_true

theorem Seated.chunk_ends (seated : Seated m capacity clusters fp d) (rest : List UInt8) :
    fp.curPos % (m.secPerClus * 512) + (fp.chunk rest).length ≤ m.secPerClus * 512 := by
  have length := fp.length_chunk rest
  exact within_cluster seated.file.sane.sectors (by omega)

theorem Seated.boundary (seated : Seated m capacity clusters fp d) (more : rest ≠ [])
    (boundary : (fp.curPos + (fp.chunk rest).length) % (m.secPerClus * 512) = 0) :
    fp.curPos + (fp.chunk rest).length =
      (fp.curPos / (m.secPerClus * 512) + 1) * (m.secPerClus * 512) := by
  have sectors := seated.file.sane.sectors
  have someChunk : 0 < (fp.chunk rest).length := by
    have least := fp.length_chunk rest
    have someRest := List.length_pos_iff.mpr more
    omega
  exact (ends_piece (by omega) someChunk (seated.chunk_ends rest) boundary).2

theorem Midway.round_eq (mid : Midway m capacity chain start clusters fp d) (more : rest ≠ [])
    (small : fp.curPos + (fp.chunk rest).length < 2 ^ 32) (total : Nat) :
    fwriteRound m total { fp, rest } d =
      (if (fp.curPos + (fp.chunk rest).length) % (m.secPerClus * 512) = 0 ∧
          rest.drop (fp.chunk rest).length ≠ [] then do
        match ← nextForWrite (fp.advanced (fp.chunk rest).length)
            (total - (rest.drop (fp.chunk rest).length).length : Nat) with
        | .error result => pure (.inr result)
        | .ok fp' => pure (.inl { fp := fp', rest := rest.drop (fp.chunk rest).length })
      else pure (.inl { fp := fp.advanced (fp.chunk rest).length
                        rest := rest.drop (fp.chunk rest).length }) :
        DriverM (WriteLoop ⊕ (Int × FatFile))) (d.chunkStored fp rest) := by
  have here := mid.seated.file.here
  subst here
  exact fwriteRound_stored mid.seated.file.free mid.seated.attached mid.seated.isCluster more small

/-- A round of a call that goes on: the bytes up to the end of a sector. -/
theorem fwriteRound_advances (mid : Midway m capacity chain start clusters fp d)
    (left : rest.drop (fp.chunk rest).length ≠ [])
    (small : fp.curPos + (fp.chunk rest).length < 2 ^ 32)
    (space : fp.curPos + (fp.chunk rest).length < m.room d.disk clusters)
    (fresh : (fp.curPos + (fp.chunk rest).length) % (m.secPerClus * 512) = 0 →
      start < fp.curPos / (m.secPerClus * 512) →
      fp.curPos / (m.secPerClus * 512) < chain.length →
      ¬ m.StaleLink chain (fp.curPos / (m.secPerClus * 512))) (total : Nat) :
    ∃ clusters' fp' d', fwriteRound m total { fp, rest } d =
        some (.inl { fp := fp', rest := rest.drop (fp.chunk rest).length }, d') ∧
      Spliced m capacity clusters fp d (fp.chunk rest) clusters' fp' d' ∧
      Midway m capacity chain start clusters' fp' d' := by
  have seated := mid.seated
  have sane := seated.file.sane
  have sectors := sane.sectors
  have more : rest ≠ [] := by
    rintro rfl
    exact left List.drop_nil
  have spliced := seated.chunkStored rest
  have within := seated.chunk_ends rest
  rw [mid.round_eq more small]
  have length := mid.length
  have after := mid.after
  by_cases boundary : (fp.curPos + (fp.chunk rest).length) % (m.secPerClus * 512) = 0
  · have upTo := seated.boundary more boundary
    have next : (fp.curPos + (fp.chunk rest).length) / (m.secPerClus * 512) =
        fp.curPos / (m.secPerClus * 512) + 1 := by
      rw [upTo, Nat.mul_div_cancel _ (by omega)]
    have readable := mid.fresh rest (fresh boundary) (fp.chunk rest).length
    have inFile₁ : (fp.advanced (fp.chunk rest).length).curPos ≤
        (fp.advanced (fp.chunk rest).length).fileSize := Nat.le_max_right _ _
    have index : (fp.curPos + (fp.chunk rest).length) / 512 / m.secPerClus =
        fp.curPos / (m.secPerClus * 512) + 1 := by
      rw [Nat.div_div_eq_div_mul, Nat.mul_comm 512, next]
    rw [if_pos ⟨boundary, left⟩]
    by_cases inside : fp.curPos / (m.secPerClus * 512) + 1 < clusters.length
    · obtain ⟨d', run, blk, here, valid, place⟩ := spliced.file.follows mid.current inside
        readable (total - (rest.drop (fp.chunk rest).length).length : Nat)
      have moved := spliced.trans seated.inFile (spliced.file.spliced_moved inFile₁ blk here
        (clusters.getD (fp.curPos / (m.secPerClus * 512) + 1) 0))
      rw [List.append_nil] at moved
      refine ⟨clusters, _, d', Prog.bind_eq_of_run run, moved, ⟨moved.file, ?_, ?_, inFile₁⟩,
        mid.longer, ?_, ?_, ?_⟩
      · exact congrArg (fun k => clusters.getD k 0) index.symm
      · change fp.curPos + (fp.chunk rest).length < _
        rw [upTo]
        exact Nat.mul_lt_mul_of_pos_right inside (by omega)
      · change _ = max _ ((fp.curPos + (fp.chunk rest).length) / _ + 1)
        omega
      · change start ≤ (fp.curPos + (fp.chunk rest).length) / _
        omega
      · change LinkBuffered m chain start ((fp.curPos + (fp.chunk rest).length) / _) d'
        rw [next, LinkBuffered, if_pos (by omega), Nat.add_sub_cancel,
          ← getD_extended mid.longer (by omega), ← mid.current]
        exact ⟨valid, place⟩
    · have last : fp.curPos / (m.secPerClus * 512) + 1 = clusters.length := by
        have here := mid.index
        omega
      have spare : 0 < (m.freeClusters (d.chunkStored fp rest).disk).card := by
        by_contra none
        rw [← spliced.room, Mount.room, Nat.eq_zero_of_not_pos none, Nat.add_zero, upTo,
          last] at space
        exact lt_irrefl _ space
      obtain ⟨nc, d', run, linked, free⟩ := spliced.file.links mid.current last
        (upTo.trans (by rw [last])) inFile₁ readable spare
        (total - (rest.drop (fp.chunk rest).length).length : Nat)
      have moved := spliced.trans seated.inFile linked
      rw [List.append_nil] at moved
      refine ⟨clusters ++ [nc], _, d', Prog.bind_eq_of_run run, moved,
        ⟨moved.file, ?_, ?_, inFile₁⟩, mid.longer.trans (List.prefix_append _ _), ?_, ?_, ?_⟩
      · change nc = (clusters ++ [nc]).getD ((fp.curPos + (fp.chunk rest).length) / 512 / _) 0
        rw [index, last]
        simp
      · change fp.curPos + (fp.chunk rest).length < _
        rw [upTo, List.length_append, List.length_singleton, last]
        exact Nat.mul_lt_mul_of_pos_right (Nat.lt_succ_self _) (by omega)
      · change _ = max _ ((fp.curPos + (fp.chunk rest).length) / _ + 1)
        rw [List.length_append, List.length_singleton]
        omega
      · change start ≤ (fp.curPos + (fp.chunk rest).length) / _
        omega
      · change LinkBuffered m chain start ((fp.curPos + (fp.chunk rest).length) / _) d'
        rw [next, LinkBuffered, if_neg (by omega)]
        exact free
  · have same : (fp.curPos + (fp.chunk rest).length) / (m.secPerClus * 512) =
        fp.curPos / (m.secPerClus * 512) := by
      exact div_inside (stays_inside (by omega) within boundary)
    have index : (fp.curPos + (fp.chunk rest).length) / 512 / m.secPerClus =
        fp.curPos / 512 / m.secPerClus := by
      rw [Nat.div_div_eq_div_mul, Nat.div_div_eq_div_mul, Nat.mul_comm 512, same]
    obtain ⟨sameValid, sameLba⟩ := mid.buffer_stored rest
    rw [if_neg fun crosses => boundary crosses.1]
    refine ⟨clusters, _, _, rfl, spliced, ⟨spliced.file, ?_, ?_, Nat.le_max_right _ _⟩,
      mid.longer, ?_, ?_, ?_⟩
    · exact seated.inPlace.trans (congrArg (fun k => clusters.getD k 0) index.symm)
    · exact Nat.lt_of_div_lt_div (by
        rw [Nat.mul_div_cancel _ (by omega)]
        exact same.trans_lt mid.index)
    · change _ = max _ ((fp.curPos + (fp.chunk rest).length) / _ + 1)
      rw [same]
      exact length
    · change start ≤ (fp.curPos + (fp.chunk rest).length) / _
      rw [same]
      exact after
    · change LinkBuffered m chain start ((fp.curPos + (fp.chunk rest).length) / _) _
      rw [same, LinkBuffered, sameValid, sameLba]
      exact mid.buffer

/-- The loop of `fat_fwrite` up to the end of a sector, with bytes left to write. -/
theorem fwriteLoop_reaches (total : Nat) {rounds : Nat}
    (mid : Midway m capacity chain start clusters fp d)
    (aligned : front ≠ [] → (fp.curPos + front.length) % 512 = 0) (left : back ≠ [])
    (small : fp.curPos + front.length < 2 ^ 32)
    (space : fp.curPos + front.length < m.room d.disk clusters)
    (fresh : ∀ k, start < k → k < chain.length →
      (k + 1) * (m.secPerClus * 512) ≤ fp.curPos + front.length → ¬ m.StaleLink chain k)
    (enough : front.length ≤ rounds) :
    ∃ rounds' clusters' fp' d', rounds ≤ rounds' + front.length ∧
      Prog.loop (fwriteRound m total) rounds { fp, rest := front ++ back } d =
        Prog.loop (fwriteRound m total) rounds' { fp := fp', rest := back } d' ∧
      Spliced m capacity clusters fp d front clusters' fp' d' ∧
      Midway m capacity chain start clusters' fp' d' := by
  induction rounds generalizing clusters fp d front with
  | zero =>
      obtain rfl : front = [] := List.eq_nil_of_length_eq_zero (Nat.le_zero.mp enough)
      exact ⟨0, clusters, fp, d, Nat.le_refl _, rfl, .refl mid.seated.file mid.seated.inFile, mid⟩
  | succ rounds ih =>
      by_cases more : front = []
      · subst more
        exact ⟨rounds + 1, clusters, fp, d, Nat.le_refl _, rfl,
          .refl mid.seated.file mid.seated.inFile, mid⟩
      have someFront := List.length_pos_iff.mpr more
      have atEnd := aligned more
      -- the round stores the bytes up to the end of the sector
      obtain ⟨first, second, rfl, length⟩ : ∃ first second, front = first ++ second ∧
          first.length = 512 - fp.curPos % 512 :=
        ⟨front.take (512 - fp.curPos % 512), front.drop (512 - fp.curPos % 512),
          (List.take_append_drop _ _).symm, List.length_take_of_le (by omega)⟩
      rw [List.length_append] at small space fresh enough
      have chunk : fp.chunk (first ++ second ++ back) = first := by
        rw [FatFile.chunk, ← length, List.append_assoc, List.take_left]
      have rest : (first ++ second ++ back).drop first.length = second ++ back := by
        rw [List.append_assoc, List.drop_left]
      have goesOn : (first ++ second ++ back).drop
          (fp.chunk (first ++ second ++ back)).length ≠ [] := by
        rw [chunk, rest]
        simp [left]
      obtain ⟨clusters₁, fp₁, d₁, run₁, spliced₁, mid₁⟩ := fwriteRound_advances mid goesOn
        (by rw [chunk]; omega) (by rw [chunk]; omega)
        (fun boundary behind old => fresh _ behind old (by
          rw [← mid.seated.boundary (by simp [left]) boundary, chunk]
          omega)) total
      rw [chunk] at spliced₁
      rw [chunk, rest] at run₁
      have pos₁ := spliced₁.pos
      have aligned₁ : second ≠ [] → (fp₁.curPos + second.length) % 512 = 0 := fun _ => by
        rw [pos₁, Nat.add_assoc, ← List.length_append]
        exact atEnd
      obtain ⟨rounds', clusters₂, fp₂, d₂, used, run₂, spliced₂, mid₂⟩ := ih mid₁ aligned₁
        (by omega) (by rw [spliced₁.room]; omega)
        (fun k behind old passed => fresh k behind old (by omega)) (by omega)
      refine ⟨rounds', clusters₂, fp₂, d₂, ?_, (Prog.loop_inl run₁).trans run₂,
        spliced₁.trans mid.seated.inFile spliced₂, mid₂⟩
      rw [List.length_append]
      omega

/-- The last bytes lie in one sector. -/
theorem fwriteLoop_ends (total rounds : Nat) (mid : Midway m capacity chain start clusters fp d)
    (more : rest ≠ []) (short : rest.length ≤ 512 - fp.curPos % 512)
    (small : fp.curPos + rest.length < 2 ^ 32) :
    ∃ fp' d', Prog.loop (fwriteRound m total) (rounds + 2) { fp, rest } d =
        some (((total : Int), fp'), d') ∧
      Spliced m capacity clusters fp d rest clusters fp' d' := by
  have chunk : fp.chunk rest = rest := List.take_of_length_le short
  have spliced := mid.seated.chunkStored rest
  have round := mid.round_eq more (by rwa [chunk]) total
  rw [chunk] at round spliced
  rw [List.drop_length, if_neg fun crosses => crosses.2 rfl] at round
  refine ⟨_, _, (Prog.loop_inl round).trans (Prog.loop_inr ?_), spliced⟩
  rw [fwriteRound, if_pos rfl]
  rfl

/-- The last bytes before the volume is full end at the end of the last cluster. -/
theorem fwriteLoop_fills (total rounds : Nat) (mid : Midway m capacity chain start clusters fp d)
    (left : rest.drop (fp.chunk rest).length ≠ [])
    (small : fp.curPos + (fp.chunk rest).length < 2 ^ 32)
    (full : fp.curPos + (fp.chunk rest).length = m.room d.disk clusters)
    (fresh : start < fp.curPos / (m.secPerClus * 512) →
      fp.curPos / (m.secPerClus * 512) < chain.length →
      ¬ m.StaleLink chain (fp.curPos / (m.secPerClus * 512))) :
    ∃ fp' d', Prog.loop (fwriteRound m total) (rounds + 1) { fp, rest } d =
        some ((((total - (rest.drop (fp.chunk rest).length).length : Nat) : Int), fp'), d') ∧
      Spliced m capacity clusters fp d (fp.chunk rest) clusters fp' d' := by
  have sectors := mid.seated.file.sane.sectors
  have more : rest ≠ [] := by
    rintro rfl
    exact left List.drop_nil
  have boundary : (fp.curPos + (fp.chunk rest).length) % (m.secPerClus * 512) = 0 := by
    rw [full, Mount.room, Nat.mul_mod_left]
  have upTo := mid.seated.boundary more boundary
  have index := mid.index
  have spliced := mid.seated.chunkStored rest
  -- the chain has no cluster behind this one, and there is none to append
  have count : clusters.length + (m.freeClusters d.disk).card =
      fp.curPos / (m.secPerClus * 512) + 1 := by
    rw [full, Mount.room] at upTo
    exact Nat.eq_of_mul_eq_mul_right (by omega) upTo
  have none : (m.freeClusters (d.chunkStored fp rest).disk).card = 0 := by
    have room := spliced.room
    rw [Mount.room, Mount.room] at room
    have same := Nat.eq_of_mul_eq_mul_right (by omega) room
    omega
  obtain ⟨d', run, blk, here⟩ := spliced.file.stuck mid.current (by omega)
    (mid.fresh rest fresh _) none (total - (rest.drop (fp.chunk rest).length).length : Nat)
  have moved := spliced.trans mid.seated.inFile
    (spliced.file.spliced_moved (Nat.le_max_right _ _) blk here fp.curClus)
  rw [List.append_nil] at moved
  have round := mid.round_eq more small total
  rw [if_pos ⟨boundary, left⟩, Prog.bind_eq_of_run run] at round
  exact ⟨_, _, Prog.loop_inr round, moved⟩

/-- The loop of `fat_fwrite` from a position of the file on: all the bytes, or as many as
the volume has room for. -/
theorem fwriteLoop_splices {rounds : Nat} (mid : Midway m capacity chain start clusters fp d)
    (small : min (fp.curPos + rest.length) (m.room d.disk clusters) < 2 ^ 32)
    (fresh : ∀ k, start < k → k < chain.length →
      (k + 1) * (m.secPerClus * 512) < fp.curPos + rest.length → ¬ m.StaleLink chain k)
    (enough : rest.length < rounds) :
    ∃ clusters' fp' d', Prog.loop (fwriteRound m rest.length) rounds { fp, rest } d =
        some ((((min rest.length (m.room d.disk clusters - fp.curPos) : Nat) : Int), fp'), d') ∧
      Spliced m capacity clusters fp d
        (rest.take (min rest.length (m.room d.disk clusters - fp.curPos))) clusters' fp' d' := by
  have inside : fp.curPos < m.room d.disk clusters := by
    have inChain := mid.seated.inChain
    rw [Mount.room, Nat.add_mul]
    omega
  have sectors : m.room d.disk clusters % 512 = 0 := by
    rw [Mount.room, ← Nat.mul_assoc, Nat.mul_mod_left]
  by_cases more : rest = []
  · subst more
    obtain ⟨rounds, rfl⟩ : ∃ less, rounds = less + 1 := ⟨rounds - 1, by omega⟩
    rw [List.length_nil, Nat.zero_min, List.take_nil]
    exact ⟨clusters, fp, d, Prog.loop_inr (by rw [fwriteRound, if_pos rfl]; rfl),
      .refl mid.seated.file mid.seated.inFile⟩
  have someRest := List.length_pos_iff.mpr more
  generalize writes : min rest.length (m.room d.disk clusters - fp.curPos) = count
  -- up to the sector of the last byte that is written
  obtain ⟨front, back, rfl, length⟩ : ∃ front back, rest = front ++ back ∧
      front.length = (fp.curPos + count - 1) / 512 * 512 - fp.curPos :=
    ⟨rest.take ((fp.curPos + count - 1) / 512 * 512 - fp.curPos), rest.drop _,
      (List.take_append_drop _ _).symm, List.length_take_of_le (by omega)⟩
  rw [List.length_append] at small fresh enough writes someRest
  have left : back ≠ [] := by
    apply List.length_pos_iff.mp
    omega
  have aligned : front ≠ [] → (fp.curPos + front.length) % 512 = 0 := fun some => by
    have someFront := List.length_pos_iff.mpr some
    omega
  have enough₁ : front.length ≤ rounds := by omega
  obtain ⟨rounds', clusters₁, fp₁, d₁, used, run₁, spliced₁, mid₁⟩ := fwriteLoop_reaches
    (front ++ back).length mid aligned left (by omega) (by omega)
    (fun k behind old passed => fresh k behind old (by omega)) enough₁
  have pos₁ := spliced₁.pos
  have chunk := fp₁.length_chunk back
  rw [run₁]
  by_cases all : count = front.length + back.length
  · obtain ⟨rounds'', rfl⟩ : ∃ less, rounds' = less + 2 := ⟨rounds' - 2, by omega⟩
    obtain ⟨fp₂, d₂, run₂, spliced₂⟩ := fwriteLoop_ends (front ++ back).length rounds'' mid₁ left
      (by omega) (by omega)
    rw [List.take_of_length_le (by rw [List.length_append, all]), all, ← List.length_append]
    exact ⟨clusters₁, fp₂, d₂, run₂, spliced₁.trans mid.seated.inFile spliced₂⟩
  · obtain ⟨rounds'', rfl⟩ : ∃ less, rounds' = less + 1 := ⟨rounds' - 1, by omega⟩
    have fills : fp₁.curPos + (fp₁.chunk back).length = m.room d₁.disk clusters₁ := by
      rw [spliced₁.room]
      omega
    have upTo : count - front.length = 512 - fp₁.curPos % 512 := by omega
    have split : (front ++ back).take count = front ++ fp₁.chunk back := by
      rw [List.take_append, List.take_of_length_le (by omega), upTo, FatFile.chunk]
    obtain ⟨fp₂, d₂, run₂, spliced₂⟩ := fwriteLoop_fills (front ++ back).length rounds'' mid₁
      (by simp; omega) (by omega) fills
      (fun behind old => fresh _ behind old (by
        rw [← mid₁.seated.boundary left (by rw [fills, Mount.room, Nat.mul_mod_left])]
        omega))
    refine ⟨clusters₁, fp₂, d₂, run₂.trans ?_, ?_⟩
    · rw [List.length_drop, List.length_append]
      congr
      omega
    · rw [split]
      exact spliced₁.trans mid.seated.inFile spliced₂

end Rounds

end Ncd15.Fat
