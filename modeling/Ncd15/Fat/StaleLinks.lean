import Ncd15.Fat.EntryLaw
import Ncd15.Fat.Growth

/-!
# Links read during a write

A round of `fat_fwrite` loads a sector of data over the table sector of the link that
was followed last, and leaves it marked as that sector.  The next link is right when
it lies in another sector, or spans two, since these are then read again.
-/

namespace Ncd15.Fat

open Ncd15.Library

section Links

variable {d : Driver} {fp : FatFile} {c : Nat}

theorem readFatSec_refetched {lba : Nat} (miss : ¬ (d.fatBufValid ∧ d.fatBufLba = lba))
    (has : d.blk.Has lba) :
    readFatSec lba d = some (true, (d.fillFat lba).noteRead lba) := by
  rw [readFatSec, if_neg miss, if_pos has]

/-- The driver without the shared buffer. -/
def Driver.core (d : Driver) : Driver :=
  { d.bare with fatWbuf := Buffer.zero, fatBufLba := 0 }

theorem fillFat_clean {d' : Driver} (lba : Nat) (alike : d'.core = d.core) :
    ((d'.fillFat lba).noteRead lba).clean = ((d.fillFat lba).noteRead lba).clean := by
  have blk : d'.blk = d.blk := (congrArg Driver.blk alike :)
  have m : d'.m = d.m := (congrArg Driver.m alike :)
  have secBuf : d'.secBuf = d.secBuf := (congrArg Driver.secBuf alike :)
  have secBufLba : d'.secBufLba = d.secBufLba := (congrArg Driver.secBufLba alike :)
  have secBufValid : d'.secBufValid = d.secBufValid := (congrArg Driver.secBufValid alike :)
  simp only [Driver.fillFat, Driver.noteRead, Driver.clean, Driver.disk, blk, m, secBuf,
    secBufLba, secBufValid]

/-- Programs that begin with a fresh read of the table do not depend on what was in the
shared buffer. -/
theorem readFatSec_then_unbuffered {d' e' : Driver} {lba : Nat} {α : Type} {failed v : α}
    {next : DriverM α} (blind : Blind next) (miss : ¬ (d.fatBufValid ∧ d.fatBufLba = lba))
    (miss' : ¬ (d'.fatBufValid ∧ d'.fatBufLba = lba)) (has : d.blk.Has lba)
    (alike : d'.core = d.core)
    (run : (do if !(← readFatSec lba) then pure failed else next) d' = some (v, e')) :
    ∃ e, (do if !(← readFatSec lba) then pure failed else next) d = some (v, e) ∧
      e.clean = e'.clean := by
  have blk : d'.blk = d.blk := (congrArg Driver.blk alike :)
  have has' : d'.blk.Has lba := by rwa [blk]
  rw [Prog.bind_eq_of_run (readFatSec_refetched miss' has')] at run
  rw [Prog.bind_eq_of_run (readFatSec_refetched miss has)]
  obtain ⟨t, erased, left⟩ := blind.run run
  rw [fillFat_clean lba alike] at erased
  obtain ⟨e, here, left'⟩ := blind.run_back erased
  exact ⟨e, here, left'.symm.trans left⟩

theorem straddled_blind (c lba idx : Nat) : Blind (do
    if !(← readFatSec lba) then pure noClus
    else do
      let b0 := (← wbuf).get idx
      if !(← readFatSec (u32 (lba + 1))) then pure noClus
      else do pure (chainEnd 0xFF8 (entry12 c b0 ((← wbuf).get 0)))) :=
  readFatSec_then_blind (.bind wbuf_blind fun _ =>
    readFatSec_then_blind (.bind wbuf_blind fun _ => pure_blind _))

/-- An entry is read right if its sector is not the one in the shared buffer, or if it
spans two sectors. -/
theorem fatNextClus_refetched {v : Nat} {e' : Driver} (hasEntry : d.HasEntry c)
    (fresh : d.fatBufValid = true → d.fatBufLba = d.m.entryLba c → d.m.Straddles c)
    (run : fatNextClus c d.bare = some (v, e')) :
    ∃ e, fatNextClus c d = some (v, e) ∧ e.clean = e'.clean := by
  obtain ⟨has, hasNext⟩ := hasEntry
  have miss' (lba : Nat) : ¬ (d.bare.fatBufValid ∧ d.bare.fatBufLba = lba) := by
    simp [Driver.bare, Driver.invalidated]
  have final (f : Sector → Nat) : Blind (do pure (f (← wbuf))) :=
    .bind wbuf_blind fun _ => pure_blind _
  have same : d.bare.m = d.m := rfl
  by_cases hit : d.fatBufValid = true ∧ d.fatBufLba = d.m.entryLba c
  · have straddles := fresh hit.1 hit.2
    have narrow : d.m.Narrow := ⟨straddles.1, straddles.2.1⟩
    have first : readFatSec (d.m.entryLba c) d = some (true, d.noteRead (d.m.entryLba c)) :=
      if_pos hit
    have other : d.m.entryLba c ≠ u32 (d.m.entryLba c + 1) := by
      have bound := u32_lt (d.m.rsvdSec + d.m.entryOff c / 512)
      unfold u32
      rw [← Mount.entryLba] at bound
      omega
    rw [fatNextClus_narrow (d := d.bare) narrow, fatNextClus12, same,
      Prog.bind_eq_of_run (readFatSec_refetched (miss' _) has)] at run
    rw [fatNextClus_narrow narrow, fatNextClus12, Prog.bind_eq_of_run first]
    simp only [straddles.2.2, Bool.not_true, Bool.false_eq_true, if_false, if_true] at run ⊢
    have alike : ((d.bare.fillFat (d.m.entryLba c)).noteRead (d.m.entryLba c)).core =
        (d.noteRead (d.m.entryLba c)).core := rfl
    refine readFatSec_then_unbuffered (straddled_blind c (d.m.entryLba c) 511) ?_ ?_
      (hasNext straddles) alike run
    · exact fun again => other (hit.2.symm.trans again.2)
    · exact fun again => other again.2
  · rcases d.m.width_cases with type | type | narrow
    · rw [fatNextClus, Prog.bind_eq_of_run (mount_run _), same] at run
      rw [fatNextClus, Prog.bind_eq_of_run (mount_run _)]
      simp only [type] at run ⊢
      exact readFatSec_then_unbuffered (final _) hit (miss' _) has rfl run
    · rw [fatNextClus, Prog.bind_eq_of_run (mount_run _), same] at run
      rw [fatNextClus, Prog.bind_eq_of_run (mount_run _)]
      simp only [type] at run ⊢
      exact readFatSec_then_unbuffered (final _) hit (miss' _) has rfl run
    · rw [fatNextClus_narrow (d := d.bare) narrow, fatNextClus12, same] at run
      rw [fatNextClus_narrow narrow, fatNextClus12]
      refine readFatSec_then_unbuffered (.ite ?_ (final _)) hit (miss' _) has rfl run
      exact readFatSec_then_blind (straddled_blind c _ _)

theorem nextForWrite_refetched {written : Int} {result : Except (Int × FatFile) FatFile}
    {e' : Driver} (hasEntry : d.HasEntry fp.curClus)
    (fresh : d.fatBufValid = true → d.fatBufLba = d.m.entryLba fp.curClus →
      d.m.Straddles fp.curClus)
    (run : nextForWrite fp written d.bare = some (result, e')) :
    ∃ e, nextForWrite fp written d = some (result, e) ∧ e.clean = e'.clean := by
  obtain ⟨nxt, e₁', first, rest⟩ := Prog.bind_eq_some run
  obtain ⟨e₁, first, same⟩ := fatNextClus_refetched hasEntry fresh first
  have blind : Blind (if nxt = noClus then do
      let nc ← fatAllocCluster
      if nc = 0 then pure (.error (written, fp))
      else if !(← fatSetEntry fp.curClus nc) then pure (.error (-1, fp))
      else pure (.ok { fp with curClus := nc })
    else pure (.ok { fp with curClus := nxt }) : DriverM (Except (Int × FatFile) FatFile)) := by
    refine .ite (.bind fatAllocCluster_blind fun nc => .ite (pure_blind _) ?_) (pure_blind _)
    exact .bind (fatSetEntry_blind _ _) fun _ => .ite (pure_blind _) (pure_blind _)
  obtain ⟨t, erased, left⟩ := blind.run rest
  rw [← same] at erased
  obtain ⟨e, here, left'⟩ := blind.run_back erased
  exact ⟨e, (Prog.bind_eq_of_run first).trans here, left'.symm.trans left⟩

variable {clusters : List Nat} {k : Nat}

/-- The move into the next cluster of the chain, whose link stays in the shared buffer. -/
theorem nextForWrite_follows (free : Free d) (chain : d.m.Chain d.disk clusters)
    (current : fp.curClus = clusters.getD k 0) (inside : k + 1 < clusters.length)
    (written : Int) :
    ∃ d', nextForWrite fp written d =
        some (.ok { fp with curClus := clusters.getD (k + 1) 0 }, d') ∧
      CacheStep d d' ∧ d'.fatBufValid = true ∧ d'.fatBufLba = d.m.lastSec fp.curClus := by
  have sane := free.1.sane
  have isCluster : d.m.IsCluster fp.curClus := by
    rw [current]
    exact chain.isCluster k (by omega)
  have next : d.m.next d.disk fp.curClus = clusters.getD (k + 1) 0 := by
    rw [current]
    exact chain.next_eq sane inside
  obtain ⟨d', run, step⟩ := fatNextClus_run free.1.good sane isCluster.2
  obtain ⟨d'', run', valid, place⟩ := fatNextClus_value free.1.good.2 (sane.places isCluster.2)
    (hasEntry_of_sane sane isCluster.2)
  obtain ⟨-, rfl⟩ := Prod.mk.inj (Option.some.inj (run.symm.trans run'))
  refine ⟨d', ?_, step, valid, place⟩
  rw [nextForWrite, Prog.bind_eq_of_run run, next,
    if_neg (cluster_ne_noClus sane (chain.isCluster (k + 1) inside))]
  rfl

/-- On a full disk a chain does not get longer. -/
theorem nextForWrite_full (free : Free d) (chain : d.m.Chain d.disk clusters)
    (current : fp.curClus = clusters.getD k 0) (last : k + 1 = clusters.length)
    (full : (d.m.freeClusters d.disk).card = 0) (written : Int) :
    ∃ d', nextForWrite fp written d = some (.error (written, fp), d') ∧ CacheStep d d' := by
  have sane := free.1.sane
  have isCluster : d.m.IsCluster fp.curClus := by
    rw [current]
    exact chain.isCluster k (by omega)
  obtain ⟨d₁, run₁, step₁⟩ := fatNextClus_run free.1.good sane isCluster.2
  rw [current, chain.next_last last, ← current] at run₁
  rcases fatAllocCluster_run (step₁.ready free.1) with ⟨nc, d₂, -, alloc⟩ | ⟨-, d₂, run₂, step₂⟩
  · have isFree := alloc.isFree
    have newCluster := alloc.isCluster
    rw [step₁.m] at isFree newCluster
    rw [step₁.disk] at isFree
    have mem := mem_freeClusters.mpr ⟨newCluster, isFree⟩
    rw [Finset.card_eq_zero.mp full] at mem
    exact absurd mem (Finset.notMem_empty nc)
  · refine ⟨d₂, ?_, step₁.trans step₂⟩
    rw [nextForWrite, Prog.bind_eq_of_run run₁, if_pos rfl, Prog.bind_eq_of_run run₂, if_pos rfl]
    rfl

end Links

end Ncd15.Fat
