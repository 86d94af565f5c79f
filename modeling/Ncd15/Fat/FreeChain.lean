import Ncd15.Fat.WideTable
import Mathlib.Data.DFinsupp.WellFounded

/-!
# Freeing a chain

`fat_free_chain` follows links and erases them as it goes.  On a chain that ends it frees
the clusters of the chain and no others.
-/

namespace Ncd15.Fat

open Ncd15.Library

section Exact

variable {m : Mount} {disk disk' : Nat → Sector} {d d' : Driver} {c : Nat} {clusters : List Nat}

/-- A chain whose links on the way are not marks of its end. -/
structure Mount.Ending (m : Mount) (disk : Nat → Sector) (clusters : List Nat) : Prop where
  chain : m.Chain disk clusters
  linked : ∀ k, k + 1 < clusters.length → clusters.getD (k + 1) 0 < m.mark

theorem getD_mem {k : Nat} (inside : k < clusters.length) : clusters.getD k 0 ∈ clusters := by
  rw [List.getD_eq_getElem _ _ inside]
  exact List.getElem_mem inside

namespace Mount.Ending

theorem tail {rest : List Nat} (ending : m.Ending disk (c :: rest)) : m.Ending disk rest where
  chain := ending.chain.tail
  linked := fun k inside => ending.linked (k + 1) (Nat.succ_lt_succ inside)

theorem congr (ending : m.Ending disk clusters)
    (same : ∀ c ∈ clusters, m.link disk' c = m.link disk c) : m.Ending disk' clusters where
  chain :=
    { isCluster := ending.chain.isCluster
      linked := fun k inside => by
        rw [same _ (getD_mem (by omega))]
        exact ending.chain.linked k inside
      last := fun k last => by
        rw [same _ (getD_mem (by omega))]
        exact ending.chain.last k last }
  linked := ending.linked

/-- What `fat_next_clus` reports at the start of a chain. -/
theorem next_eq {rest : List Nat} (ending : m.Ending disk (c :: rest)) :
    m.next disk c = rest.headD noClus := by
  cases rest with
  | nil => exact next_of_mark (ending.chain.last 0 rfl)
  | cons e rest =>
      have link := ending.chain.linked 0 (by simp)
      have small := ending.linked 0 (by simp)
      simp only [List.getD_cons_zero, List.getD_cons_succ] at link small
      rw [next_of_lt (by rwa [link]), link]
      rfl

theorem notMem_tail {rest : List Nat} (ending : m.Ending disk (c :: rest)) : c ∉ rest :=
  (List.nodup_cons.mp (ending.chain.nodup_of_lt ending.linked)).1

end Mount.Ending

/-- A round of `fat_free_chain` on a served volume frees one cluster. -/
theorem freeRound_run (serves : Serves d) (isCluster : d.m.IsCluster c) :
    ∃ d', freeRound d.m c d = some (if d.m.next d.disk c = noClus then .inr true
        else .inl (d.m.next d.disk c), d') ∧
      d'.m = d.m ∧ Serves d' ∧
      ∀ e, d.m.link d'.disk e = if e = c then 0 else d.m.link d.disk e := by
  have inRange : 2 ≤ c ∧ c < d.m.clusEnd := by
    rw [serves.clusEnd_eq]
    exact isCluster
  have scanned : Scanned d d := Scanned.refl serves.coherent
  obtain ⟨d₁, next, scanned₁⟩ := scanned.next_run serves isCluster.2
  have serves₁ := scanned₁.serves serves
  have inRange₁ : c < d₁.m.clusterCount + 2 := by
    rw [scanned₁.m]
    exact isCluster.2
  obtain ⟨d', set, m, table, serves'⟩ := serves₁.set_run inRange₁ 0
  have zero : 0 < d₁.m.entryBound := Nat.lt_of_lt_of_le mark_pos mark_le_bound
  have links := serves₁.link_of_put inRange₁ table zero
  simp only [scanned₁.m, scanned₁.disk] at links
  refine ⟨d', ?_, m.trans scanned₁.m, serves', links⟩
  rw [freeRound, if_pos inRange, Prog.bind_eq_of_run next, Prog.bind_eq_of_run set]
  by_cases last : d.m.next d.disk c = noClus
  · simp only [last]
    rfl
  · simp only [last]
    rfl

theorem freeRound_outside (outside : ¬ (2 ≤ c ∧ c < m.clusEnd)) (d : Driver) :
    freeRound m c d = some (.inr true, d) := by
  rw [freeRound, if_neg outside]
  rfl

/-- `fat_free_chain` of a chain that ends takes a round for each of its clusters. -/
theorem freeLoop_run (serves : Serves d) (ending : d.m.Ending d.disk clusters) {rounds : Nat}
    (enough : clusters.length < rounds) :
    ∃ d', Prog.loop (freeRound d.m) rounds (clusters.getD 0 0) d = some (true, d') ∧
      d'.m = d.m ∧ (∀ e ∈ clusters, d.m.link d'.disk e = 0) ∧
      ∀ e, e ∉ clusters → d.m.link d'.disk e = d.m.link d.disk e := by
  induction clusters generalizing d rounds with
  | nil =>
      obtain ⟨rounds, rfl⟩ := Nat.exists_eq_add_of_lt enough
      exact ⟨d, Prog.loop_inr (freeRound_outside (by simp) d), rfl, by simp, fun _ _ => rfl⟩
  | cons c rest ih =>
      obtain ⟨rounds, rfl⟩ := Nat.exists_eq_add_of_le' (Nat.lt_of_le_of_lt (Nat.zero_le _) enough)
      have isCluster : d.m.IsCluster c := ending.chain.isCluster 0 (by simp)
      obtain ⟨d₁, round, m, serves₁, links⟩ := freeRound_run serves isCluster
      have notMem := ending.notMem_tail
      rw [ending.next_eq] at round
      cases rest with
      | nil =>
          refine ⟨d₁, Prog.loop_inr round, m, fun e mem => ?_, fun e other => ?_⟩
          · rw [links, if_pos (List.mem_singleton.mp mem)]
          · rw [links, if_neg (List.ne_of_not_mem_cons other)]
      | cons next rest =>
          have real : next ≠ noClus := by
            have small : next < d.m.mark := ending.linked 0 (by simp)
            have bound : d.m.mark ≤ 2 ^ 28 := mark_le_bound.trans entryBound_le
            unfold noClus
            omega
          have kept : d.m.Ending d₁.disk (next :: rest) := ending.tail.congr fun e mem => by
            rw [links, if_neg (ne_of_mem_of_not_mem mem notMem)]
          rw [← m] at kept
          obtain ⟨d', run, m', freed, others⟩ := ih serves₁ kept (Nat.lt_of_succ_lt_succ enough)
          rw [m] at run freed others
          rw [List.headD_cons, if_neg real] at round
          refine ⟨d', (Prog.loop_inl round).trans run, m'.trans m, fun e mem => ?_,
            fun e other => ?_⟩
          · by_cases behind : e ∈ next :: rest
            · exact freed e behind
            · have self : e = c := (List.mem_cons.mp mem).resolve_right behind
              rw [others e behind, links, if_pos self]
          · rw [List.mem_cons, not_or] at other
            rw [others e other.2, links, if_neg other.1]

end Exact

section Totals

theorem mount_total : Total mount := fun d => ⟨d.m, d, rfl⟩

theorem wbuf_total : Total wbuf := fun d => ⟨d.fatWbuf, d, rfl⟩

theorem invalidate_total : Total invalidate := fun d => ⟨(), d.invalidated, rfl⟩

theorem readFatSec_total (lba : Nat) : Total (readFatSec lba) := by
  intro d
  unfold readFatSec
  split
  · exact ⟨_, _, rfl⟩
  split
  · exact ⟨_, _, rfl⟩
  · exact ⟨_, _, rfl⟩

theorem loadWbuf_total (lba : Nat) : Total (loadWbuf lba) := by
  intro d
  unfold loadWbuf
  split
  · exact ⟨_, _, rfl⟩
  · exact ⟨_, _, rfl⟩

theorem writeWbuf_total (lba : Nat) : Total (writeWbuf lba) := by
  intro d
  unfold writeWbuf
  split
  · exact ⟨_, _, rfl⟩
  split
  · exact ⟨_, _, rfl⟩
  · exact ⟨_, _, rfl⟩

theorem updateSec_total (lba : Nat) (edit : Sector → Sector) : Total (updateSec lba edit) :=
  .bind (fun d => ⟨(), _, rfl⟩) fun _ => .bind (fun d => ⟨(), _, rfl⟩) fun _ => writeWbuf_total lba

section Then

variable {α : Type} {failed : α} {next : DriverM α} (rest : Total next)

include rest

theorem readFatSec_then_total (lba : Nat) :
    Total (do if !(← readFatSec lba) then pure failed else next) :=
  .bind (readFatSec_total lba) fun _ => .ite (.pure failed) rest

theorem loadWbuf_then_total (lba : Nat) :
    Total (do if !(← loadWbuf lba) then pure failed else next) :=
  .bind (loadWbuf_total lba) fun _ => .ite (.pure failed) rest

theorem updateSec_then_total (lba : Nat) (edit : Sector → Sector) :
    Total (do if !(← updateSec lba edit) then pure failed else next) :=
  .bind (updateSec_total lba edit) fun _ => .ite (.pure failed) rest

end Then

/-- `fat_next_clus` has no loop. -/
theorem fatNextClus_total (c : Nat) : Total (fatNextClus c) := by
  have final (f : Sector → Nat) : Total (do pure (f (← wbuf))) :=
    .bind wbuf_total fun _ => .pure _
  have narrow (m : Mount) : Total (fatNextClus12 m c) := by
    refine readFatSec_then_total (.ite ?_ (final _)) _
    refine readFatSec_then_total (readFatSec_then_total (.bind wbuf_total fun _ => ?_) _) _
    exact readFatSec_then_total (final _) _
  refine .bind mount_total fun m => ?_
  cases m.type with
  | none => exact narrow m
  | fat12 => exact narrow m
  | fat16 => exact readFatSec_then_total (final _) _
  | fat32 => exact readFatSec_then_total (final _) _

/-- The loop of `fat_set_entry` ends with the copies. -/
theorem fatSetEntry_total (c value : Nat) : Total (fatSetEntry c value) := by
  refine .bind mount_total fun m => .bind invalidate_total fun _ => ?_
  refine loadWbuf_then_total (.ite ?_ (updateSec_then_total ?_ _ _)) _
  · refine .bind wbuf_total fun buf => updateSec_then_total (loadWbuf_then_total ?_ _) _ _
    refine updateSec_then_total (loadWbuf_then_total ?_ _) _ _
    exact updateSec_then_total (loadWbuf_then_total (updateSec_total _ _) _) _ _
  · refine .bind (.firstOf (fun i => ?_) _) fun _ => .pure _
    exact .bind (writeWbuf_total _) fun _ => .pure _

theorem fatAllocCluster_total : Total fatAllocCluster := by
  refine .bind mount_total fun m => .bind (.firstOf (fun c => ?_) _) fun _ => .pure _
  refine .bind (fatNextClus_total c) fun nxt => .ite ?_ (.pure none)
  exact .bind (fatSetEntry_total c _) fun ok => .ite (.pure _) (.pure _)

end Totals

section Termination

variable {m : Mount} {d d' : Driver} {c value : Nat}

/-- Cluster numbers whose offsets wrap have the entries of smaller ones. -/
theorem entryOff_mod (type : m.type = .fat32) (c : Nat) :
    m.entryOff (c % 2 ^ 30) = m.entryOff c := by
  simp only [Mount.entryOff, type, u32]
  omega

theorem entryLba_mod (type : m.type = .fat32) (c : Nat) :
    m.entryLba (c % 2 ^ 30) = m.entryLba c := by
  rw [Mount.entryLba, Mount.entryLba, entryOff_mod type]

theorem entryIdx_mod (type : m.type = .fat32) (c : Nat) :
    m.entryIdx (c % 2 ^ 30) = m.entryIdx c := by
  rw [Mount.entryIdx, Mount.entryIdx, entryOff_mod type]

theorem fatNextClus_mod (type : d.m.type = .fat32) (c : Nat) :
    fatNextClus (c % 2 ^ 30) d = fatNextClus c d := by
  rw [fatNextClus, fatNextClus, Prog.bind_eq_of_run (mount_run d),
    Prog.bind_eq_of_run (mount_run d)]
  simp only [type, entryLba_mod type, entryIdx_mod type]

theorem fatSetEntry_mod (type : d.m.type = .fat32) (c value : Nat) :
    fatSetEntry (c % 2 ^ 30) value d = fatSetEntry c value d := by
  have whole (c : Nat) : ¬ d.m.Straddles c := fun straddles => straddles.2.1 type
  have edit : d.m.editEntry (c % 2 ^ 30) value = d.m.editEntry c value := by
    simp only [Mount.editEntry, type, entryIdx_mod type]
  rw [fatSetEntry, fatSetEntry, Prog.bind_eq_of_run (mount_run d),
    Prog.bind_eq_of_run (mount_run d)]
  simp only [if_neg (whole _), entryLba_mod type, edit]

/-- Every cluster has its entry in the table as far as entries reach. -/
theorem exists_entry (accepted : d.m.Accepted) (inRange : c < d.m.clusEnd) :
    ∃ e, e < 2 ^ 30 ∧ (∀ d₁ : Driver, d₁.m = d.m → fatNextClus e d₁ = fatNextClus c d₁) ∧
      ∀ d₁ : Driver, d₁.m = d.m → fatSetEntry e 0 d₁ = fatSetEntry c 0 d₁ := by
  by_cases type : d.m.type = .fat32
  · refine ⟨c % 2 ^ 30, Nat.mod_lt _ (by decide), fun d₁ m => ?_, fun d₁ m => ?_⟩
    · exact fatNextClus_mod (by rwa [m]) c
    · exact fatSetEntry_mod (by rwa [m]) c 0
  · have few : d.m.clusterCount < 65525 := by
      have kind := accepted.type_eq
      by_contra many
      rw [if_neg (by omega), if_neg many] at kind
      exact type kind
    have wraps : d.m.clusEnd ≤ d.m.clusterCount + 2 := Nat.mod_le _ _
    exact ⟨c, by omega, fun _ _ => rfl, fun _ _ => rfl⟩

/-- The links of all entries. -/
def Driver.wideLinks (d : Driver) (e : Fin (2 ^ 30)) : Nat := d.wideLink e

theorem wideLink_congr {d₁ : Driver} (blk : d₁.blk = d.blk) (m : d₁.m = d.m) (e : Nat) :
    d₁.wideLink e = d.wideLink e := by
  rw [Driver.wideLink, Driver.wideLink, Driver.disk, blk, m]

/-- A round that goes on has erased a link, and the links that its writes may have brought
back are behind it in the order `r`. -/
theorem freeRound_descends {r : Fin (2 ^ 30) → Fin (2 ^ 30) → Prop} (accepted : m.Accepted)
    (keeps : ∀ (d d' : Driver) (c e : Fin (2 ^ 30)), d.m = m → d'.m = m →
      fatSetEntry c 0 d = some (true, d') → r e c → d'.wideLink e = d.wideLink e)
    (here : d.m = m) (idle : d.fatBufValid = false) :
    (∃ ok d', freeRound m c d = some (.inr ok, d')) ∨
      ∃ next d', freeRound m c d = some (.inl next, d') ∧
        (d'.m = m ∧ d'.fatBufValid = false) ∧
        (Pi.Lex r (· < ·) d'.wideLinks d.wideLinks ∨
          ∃ ok d'', freeRound m next d' = some (.inr ok, d'')) := by
  subst here
  by_cases inRange : 2 ≤ c ∧ c < d.m.clusEnd
  · obtain ⟨e, small, nextAt, setAt⟩ := exists_entry accepted inRange.2
    obtain ⟨next, d₁, read⟩ := fatNextClus_total c d
    obtain ⟨blk, m⟩ := fatNextClus_keeps (readFatSec_device d.blk d.m) c d ⟨rfl, rfl⟩ next d₁ read
    obtain ⟨ok, d', set⟩ := fatSetEntry_total c 0 d₁
    have round : freeRound d.m c d =
        (if !ok then pure (.inr false) else if next = noClus then pure (.inr true)
          else pure (.inl next) : DriverM (Nat ⊕ Bool)) d' := by
      rw [freeRound, if_pos inRange, Prog.bind_eq_of_run read, Prog.bind_eq_of_run set]
    cases ok with
    | false => exact Or.inl ⟨false, d', round⟩
    | true =>
        by_cases last : next = noClus
        · exact Or.inl ⟨true, d', round.trans (congrFun (if_pos last) d')⟩
        have accepted₁ : d₁.m.Accepted := by rwa [m]
        rw [← setAt d₁ m] at set
        have step := fatSetEntry_step set
        have here' : d'.m = d.m := step.m.trans m
        refine Or.inr ⟨next, d', round.trans (congrFun (if_neg last) d'),
          ⟨here', step.free rfl⟩, ?_⟩
        by_cases linked : 2 ≤ next
        · left
          rw [← nextAt d rfl] at read
          have value := (nextClus_wide accepted idle small read).resolve_left last
          have used : d.wideLink e ≠ 0 := by
            intro free
            have zero : d.m.wide.next d.disk e = 0 := next_eq_zero.mpr free
            omega
          have bound : 0 < d₁.m.entryBound := Nat.lt_of_lt_of_le mark_pos mark_le_bound
          obtain ⟨erased, -⟩ := setEntry_links accepted₁ small set bound
          refine ⟨⟨e, small⟩, fun j before => ?_, ?_⟩
          · exact (keeps d₁ d' ⟨e, small⟩ j m here' set before).trans (wideLink_congr blk m j)
          · change d'.wideLink e < d.wideLink e
            omega
        · right
          exact ⟨true, d', freeRound_outside (fun range => linked range.1) d'⟩
  · exact Or.inl ⟨true, d, freeRound_outside inRange d⟩

theorem freeLoop_ends (accepted : m.Accepted) (c : Nat) (here : d.m = m)
    (idle : d.fatBufValid = false) :
    ∃ rounds ok d', Prog.loop (freeRound m) rounds c d = some (ok, d') := by
  have zero : 0 < m.entryBound := Nat.lt_of_lt_of_le mark_pos mark_le_bound
  rcases upward_or_downward accepted with upward | downward
  · have wf := Pi.Lex.wellFounded (ι := Fin (2 ^ 30)) (· < ·) fun _ => Nat.lt_wfRel.wf
    refine Prog.loop_ends (I := fun d => d.m = m ∧ d.fatBufValid = false) wf Driver.wideLinks
      (fun c d kept => ?_) c ⟨here, idle⟩
    refine freeRound_descends accepted (fun d d' c e at₁ at₂ set before => ?_) kept.1 kept.2
    subst at₁
    exact (setEntry_links accepted c.isLt set zero).2.1 upward e before
  · have wf := Pi.Lex.wellFounded (ι := Fin (2 ^ 30)) (· > ·) fun _ => Nat.lt_wfRel.wf
    refine Prog.loop_ends (I := fun d => d.m = m ∧ d.fatBufValid = false) wf Driver.wideLinks
      (fun c d kept => ?_) c ⟨here, idle⟩
    refine freeRound_descends accepted (fun d d' c e at₁ at₂ set behind => ?_) kept.1 kept.2
    subst at₁
    exact (setEntry_links accepted c.isLt set zero).2.2 downward e behind e.isLt

/-- A round leaves the shared buffer free for the next one, whatever it held before. -/
theorem freeRound_goes {next : Nat} (run : freeRound d.m c d = some (.inl next, d')) :
    d'.m = d.m ∧ d'.fatBufValid = false := by
  unfold freeRound at run
  by_cases inRange : 2 ≤ c ∧ c < d.m.clusEnd
  · rw [if_pos inRange] at run
    obtain ⟨nxt, d₁, read, run⟩ := Prog.bind_eq_some run
    obtain ⟨ok, d₂, set, run⟩ := Prog.bind_eq_some run
    obtain ⟨-, m⟩ := fatNextClus_keeps (readFatSec_device d.blk d.m) c d ⟨rfl, rfl⟩ nxt d₁ read
    cases ok with
    | false => simp [Prog.pure_run] at run
    | true =>
        have step := fatSetEntry_step set
        have same : d₂ = d' := by
          by_cases last : nxt = noClus
          · simp [last, Prog.pure_run] at run
          · simp only [last] at run
            exact congrArg Prod.snd (Option.some.inj run)
        rw [← same]
        exact ⟨step.m.trans m, step.free rfl⟩
  · rw [if_neg inRange] at run
    simp [Prog.pure_run] at run

theorem freeRound_total (m : Mount) (c : Nat) : Total (freeRound m c) := by
  refine .ite (.bind (fatNextClus_total c) fun nxt => ?_) (.pure _)
  exact .bind (fatSetEntry_total c 0) fun ok => .ite (.pure _) (.ite (.pure _) (.pure _))

/-- `fat_free_chain` comes to an end from every state of the driver. -/
theorem fatFreeChain_ends (accepted : d.m.Accepted) (first : Nat) :
    ∃ rounds ok d', fatFreeChain rounds first d = some (ok, d') := by
  suffices ends : ∃ rounds ok d', Prog.loop (freeRound d.m) rounds first d = some (ok, d') by
    obtain ⟨rounds, ok, d', run⟩ := ends
    exact ⟨rounds, ok, d', (Prog.bind_eq_of_run (mount_run d)).trans run⟩
  obtain ⟨result, d₁, round⟩ := freeRound_total d.m first d
  cases result with
  | inr ok => exact ⟨1, ok, d₁, Prog.loop_inr round⟩
  | inl next =>
      obtain ⟨here, idle⟩ := freeRound_goes round
      obtain ⟨rounds, ok, d', run⟩ := freeLoop_ends accepted next here idle
      exact ⟨rounds + 1, ok, d', (Prog.loop_inl round).trans run⟩

end Termination

section Law

variable {d : Driver}

/-- `fat_free_chain` comes to an end on every mounted volume, whatever its geometry, its
table and the shared buffer, and frees exactly the clusters of a chain that ends. -/
theorem fatFreeChain_law (mounted : ∃ d₀ d₁, fatMount d₀ = some (0, d₁) ∧ d.m = d₁.m) :
    (∀ first, ∃ rounds ok d', fatFreeChain rounds first d = some (ok, d')) ∧
      (Serves d → ∀ clusters, d.m.Ending d.disk clusters →
        ∃ rounds d', fatFreeChain rounds (clusters.getD 0 0) d = some (true, d') ∧
          (∀ c ∈ clusters, d.m.link d'.disk c = 0) ∧
          ∀ c, c ∉ clusters → d.m.link d'.disk c = d.m.link d.disk c) := by
  constructor
  · obtain ⟨d₀, d₁, run, same⟩ := mounted
    have accepted : d.m.Accepted := by
      rw [same]
      exact fatMount_accepted run
    exact fatFreeChain_ends accepted
  · intro serves clusters ending
    obtain ⟨d', run, -, freed, others⟩ :=
      freeLoop_run serves ending (Nat.lt_succ_self clusters.length)
    exact ⟨_, d', (Prog.bind_eq_of_run (mount_run d)).trans run, freed, others⟩

/-- The table sector of a chain of clusters 2 and 3. -/
def pairSector : Sector := Buffer.zero.blit 3 [0x03, 0xF0, 0xFF]

def pairDriver : Driver :=
  { floppyDriver with
    blk :=
      { floppyDriver.blk with
        sec := Function.update (Function.update (floppy 2) 1 pairSector) 3 pairSector } }

theorem fatFreeChain_pair : ∃ rounds d',
    fatFreeChain rounds 2 pairDriver = some (true, d') ∧
      pairDriver.m.link d'.disk 2 = 0 ∧ pairDriver.m.link d'.disk 3 = 0 := by
  have serves : Serves pairDriver :=
    floppyDriver_serves.moved rfl rfl rfl fun valid => absurd valid Bool.false_ne_true
  have first : pairDriver.m.link pairDriver.disk 2 = 3 := by decide +kernel
  have second : pairDriver.m.link pairDriver.disk 3 = 0xFFF := by decide +kernel
  have ending : pairDriver.m.Ending pairDriver.disk [2, 3] := by
    refine ⟨⟨fun k inside => ?_, fun k inside => ?_, fun k last => ?_⟩, fun k inside => ?_⟩
    · rcases k with _ | _ | k
      · exact ⟨by decide, by decide⟩
      · exact ⟨by decide, by decide⟩
      · exact absurd inside (by simp)
    · obtain rfl : k = 0 := Nat.lt_one_iff.mp (Nat.lt_of_succ_lt_succ inside)
      exact first
    · obtain rfl : k = 1 := by simpa using last
      exact le_of_le_of_eq (by decide) second.symm
    · obtain rfl : k = 0 := Nat.lt_one_iff.mp (Nat.lt_of_succ_lt_succ inside)
      decide
  obtain ⟨rounds, d', run, freed, -⟩ :=
    (fatFreeChain_law serves.mounted).2 serves [2, 3] ending
  exact ⟨rounds, d', run, freed 2 (by decide), freed 3 (by decide)⟩

end Law

end Ncd15.Fat
