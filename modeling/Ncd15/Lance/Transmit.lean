import Ncd15.Lance.HostMemory

/-!
# One transmission

What the rounds of `lance_transmit` do to the descriptors of its ring, and how much of the
frame buffer they fill.
-/

namespace Ncd15.Lance

open Ncd15.Library

section Rounds

/-- The length of the buffer of the descriptor at `pos`. -/
def txLength (variant : Variant) (mem : HostMemory) (base : Addr) (pos : Byte) : Nat :=
  (lanceGetBufLength variant (mem (ringWord base pos 4))).toNat

/-- Its bytes, `length` of them. -/
def txBytes (bswap : Bool) (mem : HostMemory) (base : Addr) (pos : Byte) (md1 : Half)
    (length : Nat) : List Byte :=
  memBytes bswap mem (bufAddress md1 (mem (ringAddress base pos))) length

variable {dmaIn : DmaIn} {cell : Addr → Addr}

/-- The chip behind the reads of a round. -/
def Chip.fetched (l : Chip) (mem : HostMemory) (log : List Event) : Chip :=
  { l with
    txMd0 := mem (ringAddress l.txRingBase l.txRingPos)
    txMd1 := clearOwn l.txMd1
    txMd2 := mem (ringWord l.txRingBase l.txRingPos 4)
    txMd3 := 0
    log := log }

/-- A buffer without length drops the frame. -/
theorem transmitRound_dropped (memory : ReadsBack dmaIn cell) (l : Chip) (buf : List Byte)
    (empty : txLength l.variant (dmaIn l.log) l.txRingBase l.txRingPos = 0) :
    ∃ l', transmitRound dmaIn (ringAddress l.txRingBase l.txRingPos, buf) l =
      some (.inr none, l') := by
  obtain ⟨log, run, same⟩ := dmaInWord_run memory (ringAddress l.txRingBase l.txRingPos) l
  have short : lanceGetBufLength l.variant
      (dmaIn log (ringWord l.txRingBase l.txRingPos 4)) ≤ 0 := by
    rw [same]
    exact Int.toNat_eq_zero.mp empty
  obtain ⟨log', run', -⟩ := dmaInWord_run memory (ringWord l.txRingBase l.txRingPos 4)
    { l with txMd0 := dmaIn l.log (ringAddress l.txRingBase l.txRingPos), log := log }
  rw [transmitRound, Prog.bind_eq_of_run run, Prog.modify_bind_run, Prog.bind_eq_of_run run',
    Prog.modify_bind_run, Prog.get_bind_run, Prog.modify_bind_run]
  simp only [short, if_true]
  exact ⟨_, rfl⟩

/-- Any other round gathers the buffer and looks at ENP. -/
theorem transmitRound_gathers (memory : ReadsBack dmaIn cell) (l : Chip) (buf : List Byte)
    (long : txLength l.variant (dmaIn l.log) l.txRingBase l.txRingPos ≠ 0) :
    ∃ log, dmaIn log = dmaIn l.log ∧
      transmitRound dmaIn (ringAddress l.txRingBase l.txRingPos, buf) l =
        let gathered := buf ++ txBytes (l.csr3.getLsbD 2) (dmaIn l.log) l.txRingBase l.txRingPos
          l.txMd1 (min (txLength l.variant (dmaIn l.log) l.txRingBase l.txRingPos)
            (4096 - buf.length))
        (if ¬ l.txMd1.getLsbD 8 then
          transmitNext dmaIn (ringAddress l.txRingBase l.txRingPos) gathered
        else pure (.inr (some gathered))) (l.fetched (dmaIn l.log) log) := by
  obtain ⟨log₁, run₁, same₁⟩ := dmaInWord_run memory (ringAddress l.txRingBase l.txRingPos) l
  obtain ⟨log₂, run₂, same₂⟩ := dmaInWord_run memory (ringWord l.txRingBase l.txRingPos 4)
    { l with txMd0 := dmaIn l.log (ringAddress l.txRingBase l.txRingPos), log := log₁ }
  have same : dmaIn log₂ = dmaIn l.log := same₂.trans same₁
  have word : dmaIn log₁ (ringWord l.txRingBase l.txRingPos 4) =
      dmaIn l.log (ringWord l.txRingBase l.txRingPos 4) := congrFun same₁ _
  have positive : ¬ lanceGetBufLength l.variant
      (dmaIn l.log (ringWord l.txRingBase l.txRingPos 4)) ≤ 0 :=
    fun short => long (Int.toNat_eq_zero.mpr short)
  obtain ⟨log₃, run₃, same₃⟩ := gather_run memory
    (bufAddress l.txMd1 (dmaIn l.log (ringAddress l.txRingBase l.txRingPos)))
    (txLength l.variant (dmaIn l.log) l.txRingBase l.txRingPos) buf
    (l.fetched (dmaIn l.log) log₂)
  rw [show dmaIn (l.fetched (dmaIn l.log) log₂).log = dmaIn l.log from same] at run₃ same₃
  refine ⟨log₃, same₃, ?_⟩
  rw [transmitRound, Prog.bind_eq_of_run run₁, Prog.modify_bind_run, Prog.bind_eq_of_run run₂,
    Prog.modify_bind_run, Prog.get_bind_run, Prog.modify_bind_run]
  simp only [word, positive, if_false]
  exact Prog.bind_eq_of_run run₃

/-- The look-ahead finds the next descriptor ready. -/
theorem transmitNext_owned (memory : ReadsBack dmaIn cell) (l : Chip) (buf : List Byte)
    {nextPos : Byte} (next : (l.txRingPos + 1) &&& l.txRingMask = nextPos)
    (other : nextPos ≠ l.txRingPos)
    (own : (dmaIn l.log (ringWord l.txRingBase nextPos 2)).getLsbD 15) :
    ∃ log, dmaIn log =
        storeWord cell (dmaIn l.log) (ringWord l.txRingBase l.txRingPos 2) l.txMd1 ∧
      transmitNext dmaIn (ringAddress l.txRingBase l.txRingPos) buf l =
        some (.inl (ringAddress l.txRingBase nextPos, buf),
          { l with
            txRingPos := nextPos
            txMd1 := dmaIn l.log (ringWord l.txRingBase nextPos 2)
            log := log }) := by
  subst next
  obtain ⟨log, run, same⟩ := lookAhead_other memory l.txRingBase other l.txMd1 l
  refine ⟨.dmaOut (ringWord l.txRingBase l.txRingPos 2) l.txMd1 :: log, ?_, ?_⟩
  · rw [memory.written, same]
  · rw [transmitNext, Prog.get_bind_run, Prog.bind_eq_of_run run]
    simp only [own, if_true]
    rfl

/-- The look-ahead finds no further descriptor, or this one again. -/
theorem transmitNext_underrun (memory : ReadsBack dmaIn cell) (l : Chip) (buf : List Byte)
    {nextPos : Byte} (next : (l.txRingPos + 1) &&& l.txRingMask = nextPos)
    (cleared : l.txMd1.getLsbD 15 = false)
    (own : nextPos ≠ l.txRingPos →
      (dmaIn l.log (ringWord l.txRingBase nextPos 2)).getLsbD 15 = false) :
    ∃ l', transmitNext dmaIn (ringAddress l.txRingBase l.txRingPos) buf l =
      some (.inr (some buf), l') := by
  subst next
  rw [transmitNext, Prog.get_bind_run]
  by_cases alone : (l.txRingPos + 1) &&& l.txRingMask = l.txRingPos
  · rw [alone, Prog.bind_eq_of_run (lookAhead_same _ _ _ _)]
    simp only [cleared]
    exact ⟨_, rfl⟩
  · obtain ⟨log, run, -⟩ := lookAhead_other memory l.txRingBase alone l.txMd1 l
    rw [Prog.bind_eq_of_run run]
    simp only [own alone]
    exact ⟨_, rfl⟩

end Rounds

section Walks

/-- The chip without what the rounds of a transmission change. -/
def Chip.settings (l : Chip) : Chip :=
  { l with txRingPos := 0, txMd0 := 0, txMd1 := 0, txMd2 := 0, txMd3 := 0, log := [] }

/-- The first word of the descriptor `i` places behind the chip's: the chip has that of its own
descriptor already. -/
def Chip.txWord (l : Chip) (mem : HostMemory) (exponent i : Nat) : Half :=
  if i = 0 then l.txMd1 else mem (ringWord l.txRingBase (ringPos exponent l.txRingPos i) 2)

/-- The memory with OWN cleared in `count` descriptors from the chip's on. -/
def Chip.cleared (l : Chip) (cell : Addr → Addr) (mem : HostMemory) (exponent : Nat) :
    Nat → HostMemory
  | 0 => mem
  | count + 1 =>
      storeWord cell (l.cleared cell mem exponent count)
        (ringWord l.txRingBase (ringPos exponent l.txRingPos count) 2)
        (clearOwn (l.txWord mem exponent count))

variable {dmaIn : DmaIn} {cell : Addr → Addr} {exponent : Nat} {start l : Chip}

theorem cleared_other (memory : ReadsBack dmaIn cell) (mem : HostMemory) (count : Nat)
    (pos : Byte) {word : Addr} (offset : WordOffset word) (other : word ≠ 2) :
    start.cleared cell mem exponent count (ringWord start.txRingBase pos word) =
      mem (ringWord start.txRingBase pos word) := by
  induction count with
  | zero => rfl
  | succ count ih =>
      rw [Chip.cleared, storeWord_apart, ih]
      exact fun same => other (memory.word_inj offset (by decide) same).2

theorem cleared_ahead (memory : ReadsBack dmaIn cell)
    (ring : Ring exponent start.txRingMask start.txRingPos) (mem : HostMemory) {count j : Nat}
    (ahead : count ≤ j) (inside : j < 2 ^ exponent) :
    start.cleared cell mem exponent count
        (ringWord start.txRingBase (ringPos exponent start.txRingPos j) 2) =
      mem (ringWord start.txRingBase (ringPos exponent start.txRingPos j) 2) := by
  induction count with
  | zero => rfl
  | succ count ih =>
      rw [Chip.cleared, storeWord_apart, ih (by omega)]
      intro same
      have := ring.ringPos_inj inside (by omega)
        (memory.word_inj (by decide) (by decide) same).1
      omega

theorem cleared_behind (memory : ReadsBack dmaIn cell)
    (ring : Ring exponent start.txRingMask start.txRingPos) (mem : HostMemory) {count i : Nat}
    (behind : i < count) (within : count ≤ 2 ^ exponent) :
    start.cleared cell mem exponent count
        (ringWord start.txRingBase (ringPos exponent start.txRingPos i) 2) =
      clearOwn (start.txWord mem exponent i) := by
  induction count with
  | zero => omega
  | succ count ih =>
      rw [Chip.cleared]
      by_cases last : i = count
      · rw [last, storeWord_same rfl]
      · rw [storeWord_apart, ih (by omega) (by omega)]
        intro same
        exact last (ring.ringPos_inj (by omega) (by omega)
          (memory.word_inj (by decide) (by decide) same).1)

/-- A transmission that began in `start` has gone on to the descriptor `i` places behind. -/
structure TxWalk (dmaIn : DmaIn) (cell : Addr → Addr) (exponent : Nat) (start : Chip) (i : Nat)
    (l : Chip) : Prop where
  settings : l.settings = start.settings
  pos : l.txRingPos = ringPos exponent start.txRingPos i
  md1 : l.txMd1 = start.txWord (dmaIn start.log) exponent i
  memory : dmaIn l.log = start.cleared cell (dmaIn start.log) exponent i

theorem TxWalk.zero (ring : Ring exponent start.txRingMask start.txRingPos) :
    TxWalk dmaIn cell exponent start 0 start where
  settings := rfl
  pos := ring.ringPos_zero.symm
  md1 := (if_pos rfl).symm
  memory := rfl

variable {i : Nat}

theorem TxWalk.variant (walk : TxWalk dmaIn cell exponent start i l) :
    l.variant = start.variant := (congrArg Chip.variant walk.settings :)

theorem TxWalk.base (walk : TxWalk dmaIn cell exponent start i l) :
    l.txRingBase = start.txRingBase := (congrArg Chip.txRingBase walk.settings :)

theorem TxWalk.mask (walk : TxWalk dmaIn cell exponent start i l) :
    l.txRingMask = start.txRingMask := (congrArg Chip.txRingMask walk.settings :)

/-- The length in the descriptor has not changed. -/
theorem TxWalk.length (memory : ReadsBack dmaIn cell)
    (walk : TxWalk dmaIn cell exponent start i l) :
    txLength l.variant (dmaIn l.log) l.txRingBase l.txRingPos =
      txLength start.variant (dmaIn start.log) start.txRingBase
        (ringPos exponent start.txRingPos i) := by
  rw [walk.variant, walk.base, walk.pos, walk.memory, txLength,
    cleared_other memory _ _ _ (by decide) (by decide), txLength]

theorem TxWalk.nextPos (walk : TxWalk dmaIn cell exponent start i l)
    (ring : Ring exponent start.txRingMask start.txRingPos) :
    (l.txRingPos + 1) &&& l.txRingMask = ringPos exponent start.txRingPos (i + 1) := by
  rw [walk.pos, walk.mask, ring.next]

/-- A round that goes on to the next descriptor. -/
theorem TxWalk.next (memory : ReadsBack dmaIn cell)
    (ring : Ring exponent start.txRingMask start.txRingPos)
    (walk : TxWalk dmaIn cell exponent start i l) (buf : List Byte) (short : i + 1 < 2 ^ exponent)
    (long : txLength l.variant (dmaIn l.log) l.txRingBase l.txRingPos ≠ 0)
    (more : l.txMd1.getLsbD 8 = false)
    (own : (start.txWord (dmaIn start.log) exponent (i + 1)).getLsbD 15) :
    ∃ l', transmitRound dmaIn (ringAddress l.txRingBase l.txRingPos, buf) l =
        some (.inl (ringAddress l'.txRingBase l'.txRingPos,
          buf ++ txBytes (l.csr3.getLsbD 2) (dmaIn l.log) l.txRingBase l.txRingPos l.txMd1
            (min (txLength l.variant (dmaIn l.log) l.txRingBase l.txRingPos)
              (4096 - buf.length))), l') ∧
      TxWalk dmaIn cell exponent start (i + 1) l' := by
  obtain ⟨log, same, round⟩ := transmitRound_gathers memory l buf long
  have word : start.txWord (dmaIn start.log) exponent (i + 1) =
      dmaIn log (ringWord l.txRingBase (ringPos exponent start.txRingPos (i + 1)) 2) := by
    rw [same, walk.memory, walk.base, cleared_ahead memory ring _ (by omega) short]
    exact if_neg (by omega)
  have other : ringPos exponent start.txRingPos (i + 1) ≠ l.txRingPos := by
    rw [walk.pos]
    intro wrapped
    have := ring.ringPos_inj short (by omega) wrapped
    omega
  have owned : (dmaIn log (ringWord l.txRingBase
      (ringPos exponent start.txRingPos (i + 1)) 2)).getLsbD 15 := word ▸ own
  obtain ⟨log', stored, run⟩ := transmitNext_owned memory (l.fetched (dmaIn l.log) log)
    (buf ++ txBytes (l.csr3.getLsbD 2) (dmaIn l.log) l.txRingBase l.txRingPos l.txMd1
      (min (txLength l.variant (dmaIn l.log) l.txRingBase l.txRingPos) (4096 - buf.length)))
    (walk.nextPos ring) other owned
  simp only [more, Bool.false_eq_true, not_false_iff, if_true] at round
  let l' : Chip :=
    { l.fetched (dmaIn l.log) log with
      txRingPos := ringPos exponent start.txRingPos (i + 1)
      txMd1 := dmaIn log (ringWord l.txRingBase (ringPos exponent start.txRingPos (i + 1)) 2)
      log := log' }
  refine ⟨l', round.trans run, walk.settings, rfl, word.symm, ?_⟩
  rw [Chip.cleared, ← walk.base, ← walk.pos, ← walk.md1, ← walk.memory, ← same]
  exact stored

/-- A round that is the last one. -/
theorem TxWalk.last (memory : ReadsBack dmaIn cell)
    (ring : Ring exponent start.txRingMask start.txRingPos)
    (walk : TxWalk dmaIn cell exponent start i l) (buf : List Byte) (inside : i < 2 ^ exponent)
    (long : txLength l.variant (dmaIn l.log) l.txRingBase l.txRingPos ≠ 0)
    (stops : l.txMd1.getLsbD 8 ∨ i + 1 = 2 ^ exponent ∨
      (start.txWord (dmaIn start.log) exponent (i + 1)).getLsbD 15 = false) :
    ∃ l', transmitRound dmaIn (ringAddress l.txRingBase l.txRingPos, buf) l =
      some (.inr (some (buf ++ txBytes (l.csr3.getLsbD 2) (dmaIn l.log) l.txRingBase l.txRingPos
        l.txMd1 (min (txLength l.variant (dmaIn l.log) l.txRingBase l.txRingPos)
          (4096 - buf.length)))), l') := by
  obtain ⟨log, same, round⟩ := transmitRound_gathers memory l buf long
  rw [round]
  cases enp : l.txMd1.getLsbD 8
  case true =>
    simp only [not_true, if_false]
    exact ⟨_, rfl⟩
  case false =>
    simp only [Bool.false_eq_true, not_false_iff, if_true]
    refine transmitNext_underrun memory (l.fetched (dmaIn l.log) log) _ (walk.nextPos ring)
      (clearOwn_own _) fun other => ?_
    change (dmaIn log (ringWord l.txRingBase _ 2)).getLsbD 15 = false
    rw [same, walk.memory, walk.base]
    rcases Nat.lt_or_ge (i + 1) (2 ^ exponent) with short | whole
    · -- the descriptor ahead is as it was
      rw [cleared_ahead memory ring _ (by omega) short]
      rcases stops with ends | wrapped | notOwned
      · exact absurd (enp.symm.trans ends) (by decide)
      · omega
      · rw [← notOwned, Chip.txWord, if_neg (by omega)]
    · -- the ring has wrapped around to a descriptor that the loop itself has given back
      have around : ringPos exponent start.txRingPos (i + 1) =
          ringPos exponent start.txRingPos 0 := by
        rw [show i + 1 = 2 ^ exponent by omega, ring.ringPos_wrap]
      have behind : 0 < i := by
        rcases Nat.eq_zero_or_pos i with rfl | behind
        · refine absurd ?_ other
          rw [around]
          exact walk.pos.symm
        · exact behind
      rw [around, cleared_behind memory ring _ behind (by omega)]
      exact clearOwn_own _

end Walks

section Lengths

/-- The lengths in the descriptors of the chain at the `i`-th one, of which `left` have not been
looked at: up to one without length, one with ENP, or one with no owned descriptor behind it. -/
def Chip.chainLengths (l : Chip) (mem : HostMemory) (exponent : Nat) : Nat → Nat → List Nat
  | 0, _ => []
  | left + 1, i =>
      let length := txLength l.variant mem l.txRingBase (ringPos exponent l.txRingPos i)
      length ::
        if length = 0 ∨ (l.txWord mem exponent i).getLsbD 8 ∨
            ¬ (l.txWord mem exponent (i + 1)).getLsbD 15 then []
        else l.chainLengths mem exponent left (i + 1)

/-- The number of bytes gathered from a chain into a buffer that holds `stored` bytes. -/
def gatheredLength (lengths : List Nat) (stored : Nat) : Option Nat :=
  if 0 ∈ lengths then none else some (min (stored + lengths.sum) 4096)

theorem gatheredLength_cons {length stored : Nat} (long : length ≠ 0) (lengths : List Nat) :
    gatheredLength (length :: lengths) stored =
      gatheredLength lengths (min (stored + length) 4096) := by
  have same : min (stored + (length + lengths.sum)) 4096 =
      min (min (stored + length) 4096 + lengths.sum) 4096 := by omega
  simp only [gatheredLength, List.mem_cons, long.symm, false_or, List.sum_cons, same]

variable {dmaIn : DmaIn} {cell : Addr → Addr} {exponent : Nat} {start : Chip}

/-- The loop ends within the descriptors that are left and gathers what their lengths say. -/
theorem transmitLoop_run (memory : ReadsBack dmaIn cell)
    (ring : Ring exponent start.txRingMask start.txRingPos) (left : Nat) {i : Nat} {l : Chip}
    (buf : List Byte) (walk : TxWalk dmaIn cell exponent start i l)
    (some' : 0 < left) (rest : i + left = 2 ^ exponent) (fits : buf.length ≤ 4096) {rounds : Nat}
    (enough : left ≤ rounds) :
    ∃ result l',
      Prog.loop (transmitRound dmaIn) rounds (ringAddress l.txRingBase l.txRingPos, buf) l =
        some (result, l') ∧
      result.map List.length =
        gatheredLength (start.chainLengths (dmaIn start.log) exponent left i) buf.length := by
  induction left generalizing i l buf rounds with
  | zero => omega
  | succ left ih =>
      obtain ⟨rounds, rfl⟩ : ∃ n, rounds = n + 1 := ⟨rounds - 1, by omega⟩
      have length := walk.length memory
      rw [Chip.chainLengths]
      by_cases empty : txLength l.variant (dmaIn l.log) l.txRingBase l.txRingPos = 0
      · obtain ⟨l', round⟩ := transmitRound_dropped memory l buf empty
        refine ⟨none, l', Prog.loop_inr round, ?_⟩
        rw [empty] at length
        simp [gatheredLength, ← length]
      have positive := empty
      rw [length] at positive
      have stored (md1 : Half) : (buf ++ txBytes (l.csr3.getLsbD 2) (dmaIn l.log) l.txRingBase
          l.txRingPos md1 (min (txLength l.variant (dmaIn l.log) l.txRingBase l.txRingPos)
            (4096 - buf.length))).length =
          min (buf.length + txLength start.variant (dmaIn start.log) start.txRingBase
            (ringPos exponent start.txRingPos i)) 4096 := by
        rw [List.length_append, txBytes, memBytes_length, length]
        omega
      rw [gatheredLength_cons positive]
      by_cases stops : l.txMd1.getLsbD 8 ∨
          (start.txWord (dmaIn start.log) exponent (i + 1)).getLsbD 15 = false
      · obtain ⟨l', round⟩ := walk.last memory ring buf (by omega) empty
          (stops.imp_right .inr)
        refine ⟨_, l', Prog.loop_inr round, ?_⟩
        have ends : (start.txWord (dmaIn start.log) exponent i).getLsbD 8 ∨
            ¬ (start.txWord (dmaIn start.log) exponent (i + 1)).getLsbD 15 :=
          stops.imp (fun enp => walk.md1 ▸ enp) (by simp)
        rw [if_pos (.inr ends), Option.map_some, stored]
        simp [gatheredLength]
      by_cases wrapped : left = 0
      · obtain ⟨l', round⟩ := walk.last memory ring buf (by omega) empty (.inr (.inl (by omega)))
        refine ⟨_, l', Prog.loop_inr round, ?_⟩
        rw [wrapped, Chip.chainLengths, ite_self, Option.map_some, stored]
        simp [gatheredLength]
      obtain ⟨notEnp, own⟩ := not_or.mp stops
      obtain ⟨l', round, walk'⟩ := walk.next memory ring buf (by omega) empty
        (Bool.eq_false_of_not_eq_true notEnp) (by simpa using own)
      obtain ⟨result, l'', run, lengths⟩ := ih _ walk' (by omega) (by omega)
        (by rw [stored l.txMd1]; omega) (show left ≤ rounds by omega)
      refine ⟨result, l'', (Prog.loop_inl round).trans run, ?_⟩
      rw [lengths, stored l.txMd1, if_neg]
      rintro (none' | enp | notOwn)
      · exact positive none'
      · rw [← walk.md1] at enp
        exact notEnp enp
      · exact own (Bool.eq_false_of_not_eq_true notOwn)

end Lengths

section Hands

theorem dmaOutWord_total (addr : Addr) (data : Half) : Total (dmaOutWord addr data) :=
  fun _ => ⟨_, _, rfl⟩

theorem lanceSendComplete_total (result : Int) : Total (lanceSendComplete result) := by
  have marks (slot : Addr) : Total (markResult slot result) := by
    refine .bind .get fun l => .ite (.modify _) ?_
    refine .ite (.bind (.modify _) fun _ => dmaOutWord_total _ _) ?_
    exact .ite (.bind (.modify _) fun _ => dmaOutWord_total _ _) (.pure _)
  refine .bind .get fun l => .bind (marks _) fun _ => .bind .get fun marked => ?_
  exact .bind (dmaOutWord_total _ _) fun _ => .bind (.modify _) fun _ => .modify _

variable {host : Host}

theorem transmitExternal_total (frame : List Byte) : Total (transmitExternal host frame) :=
  .bind (.modify _) fun _ => .bind (lanceSendComplete_total _) fun _ => .modify _

theorem transmitFrame_total (appendFcs : Bool) (buf : List Byte) :
    Total (transmitFrame host appendFcs buf) := by
  refine .bind (.modify _) fun _ => .bind .get fun l => .ite ?_ (transmitExternal_total _)
  refine .ite (lanceSendComplete_total _) (.ite (lanceSendComplete_total _) ?_)
  exact .bind (.modify _) fun _ => .ite (lanceSendComplete_total _) (transmitExternal_total _)

/-- At most one frame went out, and what went out or into the loopback buffer is the beginning of
`stored`. -/
structure HandsOver (start : Chip) (stored : List Byte) (l : Chip) : Prop where
  sent : l.frames.1 = start.frames.1 ∨ ∃ frame, frame <+: stored ∧
    l.frames.1 = frame :: start.frames.1
  looped : l.frames.2 = start.frames.2 ∨ l.frames.2 <+: stored ∧ l.frames.2.length ≤ 100

variable {start : Chip} {stored : List Byte}

/-- The loopback buffer alone may have been filled. -/
structure Unsent (start : Chip) (stored : List Byte) (l : Chip) : Prop where
  sent : l.frames.1 = start.frames.1
  looped : l.frames.2 = start.frames.2 ∨ l.frames.2 <+: stored ∧ l.frames.2.length ≤ 100

theorem Unsent.handsOver {l : Chip} (unsent : Unsent start stored l) :
    HandsOver start stored l := ⟨.inl unsent.sent, unsent.looped⟩

theorem keeps_unsent {α : Type} {f : LanceM α} (keeps : Keeps Chip.frames f) :
    Triple (Unsent start stored) f fun _ => Unsent start stored :=
  keeps.triple fun _ _ same unsent => ⟨same ▸ unsent.sent, same ▸ unsent.looped⟩

theorem transmitExternal_hands {frame : List Byte} (begins : frame <+: stored) :
    Triple (Unsent start stored) (transmitExternal host frame)
      fun _ => HandsOver start stored := by
  refine .bind (Q := fun _ => HandsOver start stored) (.modify fun l unsent => ?_) fun _ => ?_
  · split
    case isTrue =>
      exact ⟨.inr ⟨frame, begins, congrArg (frame :: ·) unsent.sent⟩, unsent.looped⟩
    case isFalse => exact unsent.handsOver
  refine .bind ((lanceSendComplete_frames _).triple fun _ _ same hands =>
    ⟨same ▸ hands.sent, same ▸ hands.looped⟩) fun _ => .modify fun l hands => ?_
  split
  case isTrue short => exact ⟨hands.sent, .inr ⟨begins, short.2.2⟩⟩
  case isFalse => exact hands

/-- The frame as it is stored in the frame buffer. -/
def framed (appendFcs : Bool) (buf : List Byte) : List Byte :=
  if appendFcs then buf ++ fcsBytes (lanceCrc32 buf) else buf

theorem framed_length (appendFcs : Bool) (buf : List Byte) :
    (framed appendFcs buf).length = buf.length + if appendFcs then 4 else 0 := by
  cases appendFcs <;> simp [framed, fcsBytes]

theorem transmitFrame_hands (appendFcs : Bool) (buf : List Byte) :
    Triple (Unsent start (framed appendFcs buf)) (transmitFrame host appendFcs buf)
      fun _ => HandsOver start (framed appendFcs buf) := by
  have completes (result : Int) : Triple (Unsent start (framed appendFcs buf))
      (lanceSendComplete result) fun _ => HandsOver start (framed appendFcs buf) :=
    (keeps_unsent (lanceSendComplete_frames result)).weaken fun _ _ => Unsent.handsOver
  refine .bind (keeps_unsent (.modify fun l => ?_)) fun _ => .get_any fun l => ?_
  · unfold babble
    split <;> rfl
  refine .ite (fun _ => ?_) fun _ => transmitExternal_hands (List.prefix_refl _)
  refine .ite (fun _ => completes _) fun _ => .ite (fun _ => completes _) fun _ => ?_
  refine .bind (Q := fun _ => Unsent start (framed appendFcs buf)) (.modify fun l unsent => ?_)
    fun _ => .ite (fun _ => completes _) fun _ => transmitExternal_hands (List.take_prefix _ _)
  exact ⟨unsent.sent, .inr ⟨List.take_prefix _ _, List.length_take_le _ _⟩⟩

end Hands

section Safety

/-- The frame check sequence is to be appended. -/
def Chip.appendsFcs (l : Chip) : Bool :=
  ¬ modeDtcr l.mode ∨ l.variant = .am79c90 ∧ l.txMd1.getLsbD 13

/-- The chip when the loop of `lance_transmit` begins. -/
def Chip.beforeLoop (l : Chip) : Chip :=
  if l.variant = .am79c90 then l else { l with txMd1 := l.txMd1 &&& ~~~0x2000#16 }

variable {host : Host} {dmaIn : DmaIn} {rounds : Nat} {l : Chip}

theorem lanceTransmit_eq (host : Host) (dmaIn : DmaIn) (rounds : Nat) (l : Chip) :
    lanceTransmit host dmaIn rounds l =
      (do
        match ← Prog.loop (transmitRound dmaIn) rounds
            (ringAddress l.txRingBase l.txRingPos, []) with
        | none => pure ()
        | some buf => transmitFrame host l.appendsFcs buf : LanceM Unit) l.beforeLoop := rfl

/-- `lance_transmit` returns once it has looked at every descriptor of the ring, its frame stays
within a buffer of 4096 bytes, and it hands on no more than is in it. -/
structure TransmitSafe (host : Host) (dmaIn : DmaIn) (exponent : Nat) (l : Chip) : Prop where
  gathers : ∀ slot buf l', Rounds (transmitRound dmaIn)
    (ringAddress l.txRingBase l.txRingPos, []) l.beforeLoop (slot, buf) l' → buf.length ≤ 4096
  returns : ∀ rounds ≥ 2 ^ exponent, ∃ gathered l₁ l',
    Prog.loop (transmitRound dmaIn) rounds (ringAddress l.txRingBase l.txRingPos, [])
      l.beforeLoop = some (gathered, l₁) ∧
    lanceTransmit host dmaIn rounds l = some ((), l') ∧
    match gathered with
    | none => l'.frames = l.frames
    | some buf => (framed l.appendsFcs buf).length ≤ 4096 ∧
        HandsOver l (framed l.appendsFcs buf) l'

theorem dmaInPairs_length (dmaIn : DmaIn) (bswap : Bool) (length : Nat) (addr : Addr) :
    Triple (fun _ => True) (dmaInPairs dmaIn bswap length addr)
      fun bytes _ => bytes.length = length := by
  have word (addr : Addr) : Triple (fun _ => True) (dmaInWord dmaIn addr) fun _ _ => True :=
    fun _ _ _ _ _ => trivial
  induction length, addr using dmaInPairs.induct with
  | case1 => exact .pure fun _ _ => rfl
  | case2 addr => exact .bind (word addr) fun w => .pure fun _ _ => rfl
  | case3 length addr ih =>
      refine .bind (word addr) fun w => .bind ih fun rest => .pure fun _ same => ?_
      cases bswap
      · exact congrArg (· + 2) same
      · exact congrArg (· + 2) same

/-- The buffer never holds more than it has room for. -/
theorem transmitRound_length (dmaIn : DmaIn) (slot : Addr) {buf : List Byte}
    (fits : buf.length ≤ 4096) :
    Triple (fun _ => True) (transmitRound dmaIn (slot, buf)) fun result _ =>
      Sum.elim (fun state => state.2.length ≤ 4096) (fun _ => True) result := by
  have block (addr : Addr) (count : Nat) (some' : 0 < count) :
      Triple (fun _ => True) (lanceDmaInBlock dmaIn addr count)
        fun bytes _ => bytes.length = count := by
    refine .get_any fun l => .ite (fun _ => ?_) fun _ => dmaInPairs_length _ _ _ _
    refine .bind (Q := fun _ _ => True) (fun _ _ _ _ _ => trivial) fun w =>
      .bind (dmaInPairs_length _ _ _ _) fun rest => .pure fun _ same => ?_
    rw [List.length_cons, same]
    omega
  have gathers (addr : Addr) (count : Nat) : Triple (fun _ => True) (gather dmaIn addr count buf)
      fun gathered _ => gathered.length ≤ 4096 := by
    refine .ite (fun some' => .bind (block _ _ some') fun bytes => .pure fun _ same => ?_)
      fun _ => .pure fun _ _ => fits
    rw [List.length_append, same]
    omega
  have any {α : Type} (f : LanceM α) : Triple (fun _ => True) f fun _ _ => True :=
    fun _ _ _ _ _ => trivial
  refine .bind (any _) fun md0 => .bind (any _) fun _ => .bind (any _) fun md2 => ?_
  refine .bind (any _) fun _ => .bind (any _) fun l => .bind (any _) fun _ => .ite (fun _ => ?_) ?_
  · exact .bind (any _) fun _ => .bind (any _) fun _ => .pure fun _ _ => trivial
  intro _
  refine .bind (gathers _ _) fun gathered => .assuming (fun _ => id) fun fits' => ?_
  refine .strengthen (P := fun _ => True) (.ite (fun _ => ?_) fun _ => .pure fun _ _ => trivial)
    fun _ _ => trivial
  refine .bind (any _) fun l => .bind (any _) fun nextTmd1 => .ite (fun _ => ?_) fun _ => ?_
  · exact .bind (any _) fun _ => .bind (any _) fun _ => .pure fun _ _ => fits'
  · exact .bind (any _) fun _ => .bind (any _) fun _ => .bind (any _) fun _ =>
      .pure fun _ _ => trivial

theorem rounds_length {slot slot' : Addr} {buf : List Byte} {l' : Chip}
    (passed : Rounds (transmitRound dmaIn) (slot, []) l (slot', buf) l') : buf.length ≤ 4096 := by
  generalize same : (slot', buf) = state at passed
  induction passed generalizing slot' buf with
  | start =>
      obtain ⟨-, rfl⟩ := Prod.mk.inj same
      simp
  | @next state state' l' l'' before round ih =>
      subst same
      exact transmitRound_length dmaIn state.1 (ih rfl) l' trivial _ l'' round

theorem beforeLoop_settings (l : Chip) : l.beforeLoop.settings = l.settings := by
  unfold Chip.beforeLoop
  split <;> rfl

theorem beforeLoop_frames (l : Chip) : l.beforeLoop.frames = l.frames := by
  unfold Chip.beforeLoop
  split <;> rfl

theorem beforeLoop_base (l : Chip) : l.beforeLoop.txRingBase = l.txRingBase :=
  (congrArg Chip.txRingBase (beforeLoop_settings l) :)

theorem beforeLoop_mask (l : Chip) : l.beforeLoop.txRingMask = l.txRingMask :=
  (congrArg Chip.txRingMask (beforeLoop_settings l) :)

theorem beforeLoop_variant (l : Chip) : l.beforeLoop.variant = l.variant :=
  (congrArg Chip.variant (beforeLoop_settings l) :)

theorem beforeLoop_pos (l : Chip) : l.beforeLoop.txRingPos = l.txRingPos := by
  unfold Chip.beforeLoop
  split <;> rfl

theorem beforeLoop_log (l : Chip) : l.beforeLoop.log = l.log := by
  unfold Chip.beforeLoop
  split <;> rfl

/-- Only ADD_FCS is gone, which is no part of the chain. -/
theorem beforeLoop_txWord (l : Chip) (mem : HostMemory) (exponent i bit : Nat) (other : bit ≠ 13) :
    (l.beforeLoop.txWord mem exponent i).getLsbD bit = (l.txWord mem exponent i).getLsbD bit := by
  unfold Chip.txWord
  rw [beforeLoop_base, beforeLoop_pos]
  split
  · unfold Chip.beforeLoop
    split
    · rfl
    · by_cases inside : bit < 16
      · have kept : (~~~0x2000#16).getLsbD bit = true := by
          interval_cases bit <;> first | rfl | exact absurd rfl other
        rw [BitVec.getLsbD_and, kept, Bool.and_true]
      · rw [BitVec.getLsbD_of_ge _ _ (by omega), BitVec.getLsbD_of_ge _ _ (by omega)]
  · rfl

theorem beforeLoop_chainLengths (l : Chip) (mem : HostMemory) (exponent left i : Nat) :
    l.beforeLoop.chainLengths mem exponent left i = l.chainLengths mem exponent left i := by
  induction left generalizing i with
  | zero => rfl
  | succ left ih =>
      rw [Chip.chainLengths, Chip.chainLengths, ih, beforeLoop_variant, beforeLoop_base,
        beforeLoop_pos, beforeLoop_txWord l mem exponent i 8 (by decide),
        beforeLoop_txWord l mem exponent (i + 1) 15 (by decide)]

variable {cell : Addr → Addr} {exponent : Nat}

/-- The lengths in the chain that the transmission is about. -/
def Chip.txLengths (l : Chip) (dmaIn : DmaIn) (exponent : Nat) : List Nat :=
  l.chainLengths (dmaIn l.log) exponent (2 ^ exponent) 0

theorem beforeLoop_run (memory : ReadsBack dmaIn cell)
    (ring : Ring exponent l.txRingMask l.txRingPos) (enough : 2 ^ exponent ≤ rounds) :
    ∃ gathered l₁, Prog.loop (transmitRound dmaIn) rounds
        (ringAddress l.txRingBase l.txRingPos, []) l.beforeLoop = some (gathered, l₁) ∧
      gathered.map List.length = gatheredLength (l.txLengths dmaIn exponent) 0 := by
  rw [← beforeLoop_mask, ← beforeLoop_pos] at ring
  have run := transmitLoop_run memory ring (2 ^ exponent) [] (.zero ring) (Nat.two_pow_pos _)
    (Nat.zero_add _) (Nat.zero_le _) enough
  rw [beforeLoop_base, beforeLoop_pos, beforeLoop_log, beforeLoop_chainLengths] at run
  exact run

/-- The frame check sequence is not appended, or the chain is dropped, or what it gathers leaves
room for the four bytes. -/
def Chip.RoomForFcs (l : Chip) (dmaIn : DmaIn) (exponent : Nat) : Prop :=
  l.appendsFcs → 0 ∈ l.txLengths dmaIn exponent ∨ (l.txLengths dmaIn exponent).sum ≤ 4092

theorem roomForFcs_of_safe (memory : ReadsBack dmaIn cell)
    (ring : Ring exponent l.txRingMask l.txRingPos) (safe : TransmitSafe host dmaIn exponent l) :
    l.RoomForFcs dmaIn exponent := by
  intro appends
  obtain ⟨gathered, l₁, run, lengths⟩ := beforeLoop_run memory ring le_rfl
  obtain ⟨gathered', l₁', l', run', -, frame⟩ := safe.returns _ le_rfl
  obtain ⟨rfl, rfl⟩ := Prod.mk.inj (Option.some.inj (run.symm.trans run'))
  by_cases dropped : 0 ∈ l.txLengths dmaIn exponent
  · exact .inl dropped
  · right
    rw [gatheredLength, if_neg dropped] at lengths
    obtain ⟨buf, rfl, length⟩ := Option.map_eq_some_iff.mp lengths
    have bound := frame.1
    rw [framed_length, appends, if_pos rfl] at bound
    omega

/-- A transmission stays within its frame buffer exactly when there is room for the frame check
sequence. -/
theorem transmitSafe_iff (memory : ReadsBack dmaIn cell)
    (ring : Ring exponent l.txRingMask l.txRingPos) :
    TransmitSafe host dmaIn exponent l ↔ l.RoomForFcs dmaIn exponent := by
  refine ⟨roomForFcs_of_safe memory ring, fun room => ⟨fun _ _ _ => rounds_length, ?_⟩⟩
  intro rounds enough
  obtain ⟨gathered, l₁, run, lengths⟩ := beforeLoop_run memory ring enough
  have kept : l₁.frames = l.frames :=
    (Keeps.loop (transmitRound_frames dmaIn) _ _ _ _ _ run).trans (beforeLoop_frames l)
  have whole := lanceTransmit_eq host dmaIn rounds l
  rw [Prog.bind_eq_of_run run] at whole
  cases gathered with
  | none => exact ⟨none, l₁, l₁, run, whole, kept⟩
  | some buf =>
      obtain ⟨⟨⟩, l', rest⟩ := @transmitFrame_total host l.appendsFcs buf l₁
      have unsent : Unsent l (framed l.appendsFcs buf) l₁ :=
        ⟨congrArg Prod.fst kept, .inl (congrArg Prod.snd kept)⟩
      refine ⟨some buf, l₁, l', run, whole.trans rest, ?_,
        transmitFrame_hands l.appendsFcs buf l₁ unsent _ l' rest⟩
      rw [gatheredLength] at lengths
      split at lengths
      case isTrue => simp at lengths
      case isFalse notDropped =>
        have length := Option.some.inj lengths
        rw [framed_length]
        cases appends : l.appendsFcs
        · simp only [Bool.false_eq_true, if_false]
          omega
        · have := (room appends).resolve_left notDropped
          simp only [if_true]
          omega

/-- A ring of one descriptor with STP and ENP, and `md2` for its length. -/
def loneDma (md2 : Half) : DmaIn :=
  memoryDma id fun addr => if addr = 2 then 0x8300 else if addr = 4 then md2 else 0

theorem loneDma_readsBack (md2 : Half) : ReadsBack (loneDma md2) id := plainDma_readsBack _

/-- A chip that has found this descriptor. -/
def loneChip : Chip := { lanceInit .am79c90 with txRingMask := 0xFE#8, txMd1 := 0x8300#16 }

theorem loneChip_ring : Ring 0 loneChip.txRingMask loneChip.txRingPos :=
  ⟨by decide, .inl rfl, by decide⟩

theorem transmitSafe_minimal : TransmitSafe zeroHost (loneDma 0xFFC0) 0 loneChip :=
  (transmitSafe_iff (loneDma_readsBack _) loneChip_ring).mpr fun _ => .inr (by decide)

/-- A buffer of 4096 bytes is gathered whole, and the frame check sequence behind it. -/
theorem full_frame_overflows : ¬ TransmitSafe zeroHost (loneDma 0xF000) 0 loneChip := by
  intro safe
  have room := roomForFcs_of_safe (loneDma_readsBack _) loneChip_ring safe
  have lengths : loneChip.txLengths (loneDma 0xF000) 0 = [4096] := by decide
  rw [Chip.RoomForFcs, lengths] at room
  simpa using room (by decide)

end Safety

end Ncd15.Lance
