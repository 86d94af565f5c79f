import Ncd15.Emulator.IcacheCoherence

/-!
# Stores, instructions and runs on a coherent cache

SB, SH and SW invalidate the line of their first byte, SWL and SWR none.  A run
stays coherent as long as no store leaves one of its bytes in the cache, and
then every fetch returns what the bus would read.
-/

namespace Ncd15.Emulator

section Stores

variable {δ : Type} {allowed : Word → Prop} {b : Bus δ} {icache icache' : BitVec 8 → IcacheLine}

/-- The byte `i` behind an address. -/
def byteAt (pa : Word) (i : Nat) : Word := pa + BitVec.ofNat 32 i

theorem cachedLine_wordOf (icache : BitVec 8 → IcacheLine) (pa : Word) :
    CachedLine icache (pa &&& ~~~3#32) ↔ CachedLine icache pa := by
  have index : icacheIndex (pa &&& ~~~3#32) = icacheIndex pa := by
    apply BitVec.eq_of_toNat_eq
    rw [toNat_icacheIndex, toNat_icacheIndex, toNat_and_not_3]
    omega
  have tag : icacheTag (pa &&& ~~~3#32) = icacheTag pa := by
    apply BitVec.eq_of_toNat_eq
    rw [toNat_icacheTag, toNat_icacheTag, toNat_and_not_3]
    omega
  rw [CachedLine, CachedLine, index, tag]

variable [Mmio δ]

theorem busWrite_fixed (b : Bus δ) (va value : Word) (size : Size) :
    SameFixed b (busWrite b va value size) := by
  unfold busWrite
  dsimp only
  repeat' split
  all_goals exact ⟨rfl, rfl, rfl, rfl⟩

theorem busWrite_shadow (b : Bus δ) (va value : Word) (size : Size) (offset : Nat) :
    (busWrite b va value size).shadow offset = b.shadow offset ∨
      InShadow (mipsVaToPa va) ∧ (mipsVaToPa va - 0x0EC00000#32).toNat ≤ offset ∧
        offset < (mipsVaToPa va - 0x0EC00000#32).toNat + size.bytes := by
  by_cases inside : InShadow (mipsVaToPa va) ∧ (mipsVaToPa va - 0x0EC00000#32).toNat ≤ offset ∧
      offset < (mipsVaToPa va - 0x0EC00000#32).toNat + size.bytes
  · exact .inr inside
  left
  unfold busWrite
  dsimp only
  split
  · rfl
  split
  · rfl
  split
  case isTrue shadow =>
    refine stBe_outside _ _ ?_
    by_contra between
    exact inside ⟨shadow, by omega, by omega⟩
  repeat' split
  all_goals rfl

theorem busWrite_dram (b : Bus δ) (va value : Word) (size : Size) (offset : Nat) :
    (busWrite b va value size).dram offset = b.dram offset ∨
      (mipsVaToPa va).toNat < 0x0EC00000 ∧ (mipsVaToPa va).toNat % 0x00400000 ≤ offset ∧
        offset < (mipsVaToPa va).toNat % 0x00400000 + size.bytes := by
  by_cases inside : (mipsVaToPa va).toNat < 0x0EC00000 ∧
      (mipsVaToPa va).toNat % 0x00400000 ≤ offset ∧
        offset < (mipsVaToPa va).toNat % 0x00400000 + size.bytes
  · exact .inr inside
  left
  unfold busWrite
  dsimp only
  split
  · rfl
  split
  · rfl
  split
  · rfl
  split
  case isTrue dram =>
    rw [toNat_dramOffset]
    refine stBe_outside _ _ ?_
    by_contra between
    exact inside ⟨dram, by omega, by omega⟩
  repeat' split
  all_goals rfl

/-- A store to other RAM words keeps a memory word. -/
theorem busWrite_wordAt {va pa value : Word} {size : Size} (aligned : pa.toNat % 4 = 0)
    (apart : ∀ i < size.bytes, ¬ SameRamWord (byteAt (mipsVaToPa va) i &&& ~~~3#32) pa) :
    (busWrite b va value size).wordAt pa = b.wordAt pa := by
  have few : size.bytes ≤ 4 := by cases size <;> decide
  have word : ∀ i < 4, (mipsVaToPa va).toNat < 0x0F000000 →
      (byteAt (mipsVaToPa va) i &&& ~~~3#32).toNat = ((mipsVaToPa va).toNat + i) / 4 * 4 := by
    intro i small low
    rw [toNat_and_not_3, byteAt, BitVec.toNat_add, BitVec.toNat_ofNat]
    omega
  by_cases high : 0x0F000000#32 ≤ pa
  · exact (busWrite_fixed b va value size).wordAt high
  by_cases dram : pa < 0x0EC00000#32
  · have low : pa.toNat < 0x0EC00000 := dram
    rw [wordAt_dram dram, wordAt_dram dram, toNat_dramOffset]
    refine ldBe_congr fun j small => ?_
    change j < 4 at small
    rcases busWrite_dram b va value size (pa.toNat % 0x00400000 + j) with same | written
    · exact same
    · obtain ⟨target, first, last⟩ := written
      obtain ⟨i, place⟩ : ∃ i, pa.toNat % 0x00400000 + j =
          (mipsVaToPa va).toNat % 0x00400000 + i :=
        ⟨pa.toNat % 0x00400000 + j - (mipsVaToPa va).toNat % 0x00400000, by omega⟩
      have at_i := word i (by omega) (by omega)
      refine absurd (.inr ⟨?_, dram, ?_⟩) (apart i (by omega))
      · change (byteAt (mipsVaToPa va) i &&& ~~~3#32).toNat < 0x0EC00000
        omega
      · omega
  · have shadow : InShadow pa := ⟨BitVec.not_lt.mp dram, BitVec.not_le.mp high⟩
    have low : 0x0EC00000 ≤ pa.toNat := shadow.1
    have base : (pa - 0x0EC00000#32).toNat = pa.toNat - 0x0EC00000 :=
      BitVec.toNat_sub_of_le shadow.1
    rw [wordAt_shadow shadow, wordAt_shadow shadow, base]
    refine ldBe_congr fun j small => ?_
    change j < 4 at small
    rcases busWrite_shadow b va value size (pa.toNat - 0x0EC00000 + j) with same | written
    · exact same
    · obtain ⟨target, first, last⟩ := written
      have low' : 0x0EC00000 ≤ (mipsVaToPa va).toNat := target.1
      have high' : (mipsVaToPa va).toNat < 0x0F000000 := target.2
      have base' : (mipsVaToPa va - 0x0EC00000#32).toNat = (mipsVaToPa va).toNat - 0x0EC00000 :=
        BitVec.toNat_sub_of_le target.1
      rw [base'] at first last
      obtain ⟨i, place⟩ : ∃ i, pa.toNat + j = (mipsVaToPa va).toNat + i :=
        ⟨pa.toNat + j - (mipsVaToPa va).toNat, by omega⟩
      have at_i := word i (by omega) high'
      refine absurd (.inl (BitVec.eq_of_toNat_eq ?_)) (apart i (by omega))
      omega

/-- Every byte that a store writes lies in the line it invalidates, when it
invalidates one, or in no cached line. -/
def StoreClear (icache : BitVec 8 → IcacheLine) (va : Word) (size : Size) (invalidates : Bool) :
    Prop :=
  ∀ i < size.bytes,
    (invalidates = true ∧ byteAt (mipsVaToPa va) i >>> 4 = mipsVaToPa va >>> 4) ∨
      ¬ CachedLine icache (byteAt (mipsVaToPa va) i)

/-- The words that a store writes bear names in use. -/
def StoreNamed (allowed : Word → Prop) (va : Word) (size : Size) : Prop :=
  ∀ i < size.bytes, allowed (byteAt (mipsVaToPa va) i &&& ~~~3#32)

/-- A store keeps the cache coherent when none of its bytes stays cached. -/
theorem coherent_busWrite (oneName : OneName allowed) (coherent : Coherent allowed icache b)
    {va value : Word} {size : Size} (named : StoreNamed allowed va size)
    (fewer : ∀ pa, CachedLine icache' pa → CachedLine icache pa)
    (words : ∀ index, (icache' index).words = (icache index).words)
    (gone : ∀ i < size.bytes, ¬ CachedLine icache' (byteAt (mipsVaToPa va) i)) :
    Coherent allowed icache' (busWrite b va value size) := by
  intro pa _ tracked cached
  have before := tracked.of_fixed (busWrite_fixed b va value size)
  rw [words, busWrite_wordAt before.aligned]
  · exact coherent pa trivial before (fewer pa cached)
  · intro i small same
    have equal := oneName _ _ (named i small) tracked.named same
    rw [← equal, cachedLine_wordOf] at cached
    exact gone i small cached

theorem sameLine_iff {p q : Word} :
    p >>> 4 = q >>> 4 ↔ icacheIndex p = icacheIndex q ∧ icacheTag p = icacheTag q := by
  constructor
  · intro same
    have value := congrArg BitVec.toNat same
    rw [BitVec.toNat_ushiftRight, BitVec.toNat_ushiftRight, Nat.shiftRight_eq_div_pow,
      Nat.shiftRight_eq_div_pow] at value
    constructor <;> apply BitVec.eq_of_toNat_eq
    · rw [toNat_icacheIndex, toNat_icacheIndex]
      omega
    · rw [toNat_icacheTag, toNat_icacheTag]
      omega
  · rintro ⟨index, tag⟩
    have sameIndex := congrArg BitVec.toNat index
    have sameTag := congrArg BitVec.toNat tag
    rw [toNat_icacheIndex, toNat_icacheIndex] at sameIndex
    rw [toNat_icacheTag, toNat_icacheTag] at sameTag
    apply BitVec.eq_of_toNat_eq
    rw [BitVec.toNat_ushiftRight, BitVec.toNat_ushiftRight, Nat.shiftRight_eq_div_pow,
      Nat.shiftRight_eq_div_pow]
    omega

theorem cachedLine_invalidate {pa other : Word}
    (cached : CachedLine (icacheInvalidate icache pa) other) :
    CachedLine icache other ∧ other >>> 4 ≠ pa >>> 4 := by
  unfold icacheInvalidate CachedLine at cached
  dsimp only at cached
  split at cached
  case isTrue hit =>
    by_cases index : icacheIndex other = icacheIndex pa
    · rw [index, Function.update_self] at cached
      exact absurd cached.symm (icacheTag_ne_empty other)
    · rw [Function.update_of_ne index] at cached
      exact ⟨cached, fun same => index (sameLine_iff.mp same).1⟩
  case isFalse missed =>
    refine ⟨cached, fun same => missed ?_⟩
    obtain ⟨index, tag⟩ := sameLine_iff.mp same
    rw [← index, ← tag]
    exact cached

theorem icacheInvalidate_words (icache : BitVec 8 → IcacheLine) (pa : Word) (index : BitVec 8) :
    (icacheInvalidate icache pa index).words = (icache index).words := by
  unfold icacheInvalidate
  dsimp only
  split
  · by_cases same : index = icacheIndex pa
    · subst same
      rw [Function.update_self]
    · rw [Function.update_of_ne same]
  · rfl

variable {cpu : Cpu δ}

theorem store_coherent (oneName : OneName allowed) (coherent : Coherent allowed cpu.icache cpu.bus)
    {va value : Word} {size : Size} (cachedStore : uncached va = false)
    (named : StoreNamed allowed va size) (clear : StoreClear cpu.icache va size true) :
    Coherent allowed (cpu.store va value size).icache (cpu.store va value size).bus := by
  have invalidated : (cpu.store va value size).icache =
      icacheInvalidate cpu.icache (mipsVaToPa va) := by
    unfold Cpu.store
    exact if_neg (by rw [cachedStore]; decide)
  rw [invalidated]
  refine coherent_busWrite oneName coherent named
    (fun pa cached => (cachedLine_invalidate cached).1)
    (icacheInvalidate_words _ _) fun i small cached => ?_
  obtain ⟨before, otherLine⟩ := cachedLine_invalidate cached
  rcases clear i small with ⟨-, sameLine⟩ | uncachedByte
  · exact otherLine sameLine
  · exact uncachedByte before

theorem busWrite_coherent (oneName : OneName allowed) (coherent : Coherent allowed icache b)
    {va value : Word} (named : StoreNamed allowed va .four)
    (clear : StoreClear icache va .four false) :
    Coherent allowed icache (busWrite b va value .four) := by
  refine coherent_busWrite oneName coherent named (fun _ cached => cached) (fun _ => rfl)
    fun i small => ?_
  rcases clear i small with ⟨never, -⟩ | uncachedByte
  · cases never
  · exact uncachedByte

end Stores

section Execution

variable {δ : Type}

/-- A store of the CPU: its address and size, and whether the instruction
invalidates the line. -/
structure StoreOp where
  va : Word
  size : Size
  invalidates : Bool

def storeOf (r : Reg → Word) (insn : Word) : Option StoreOp :=
  let a := r (rs insn) + simm insn
  match op insn with
  | 0x28 => some ⟨a, .one, true⟩
  | 0x29 => some ⟨a, .two, true⟩
  | 0x2B => some ⟨a, .four, true⟩
  | 0x2A | 0x2E => some ⟨a &&& ~~~3#32, .four, false⟩
  | _ => none

def SameMemory (first second : Cpu δ) : Prop :=
  first.icache = second.icache ∧ first.bus = second.bus

theorem wrReg_sameMemory (cpu : Cpu δ) (i : Reg) (v : Word) : SameMemory (cpu.wrReg i v) cpu := by
  unfold Cpu.wrReg
  split <;> exact ⟨rfl, rfl⟩

theorem branchIf_sameMemory (cpu : Cpu δ) (pc insn : Word) (cond : Bool) :
    SameMemory (cpu.branchIf pc insn cond) cpu := by
  unfold Cpu.branchIf
  split <;> exact ⟨rfl, rfl⟩

theorem execRegimm_sameMemory (cpu : Cpu δ) (pc insn : Word) :
    SameMemory (cpu.execRegimm pc insn) cpu := by
  have linked := wrReg_sameMemory cpu 31 (pc + 8)
  have branch := branchIf_sameMemory (cpu.wrReg 31 (pc + 8)) pc insn
  unfold Cpu.execRegimm
  dsimp only
  split
  · exact branchIf_sameMemory _ _ _ _
  · exact branchIf_sameMemory _ _ _ _
  · exact ⟨(branch _).1.trans linked.1, (branch _).2.trans linked.2⟩
  · exact ⟨(branch _).1.trans linked.1, (branch _).2.trans linked.2⟩
  · exact ⟨rfl, rfl⟩

variable {allowed : Word → Prop} {cpu other : Cpu δ}

/-- The cache of a machine is coherent with its bus. -/
def Cpu.CacheCoherent (allowed : Word → Prop) (cpu : Cpu δ) : Prop :=
  Coherent allowed cpu.icache cpu.bus

theorem Cpu.CacheCoherent.of_same (coherent : cpu.CacheCoherent allowed)
    (same : SameMemory other cpu) : other.CacheCoherent allowed := by
  unfold Cpu.CacheCoherent
  rw [same.1, same.2]
  exact coherent

theorem Cpu.CacheCoherent.of_kept (coherent : cpu.CacheCoherent allowed)
    (icache : other.icache = cpu.icache) (kept : KeepsMemory cpu.bus other.bus) :
    other.CacheCoherent allowed := by
  unfold Cpu.CacheCoherent Coherent at coherent ⊢
  rw [icache]
  exact coherent.of_kept kept

theorem execCop0_coherent (coherent : cpu.CacheCoherent allowed) (insn : Word) :
    (cpu.execCop0 insn).CacheCoherent allowed := by
  have isolated : ∀ flag, KeepsMemory cpu.bus { cpu.bus with cacheIsolated := flag } :=
    fun _ => ⟨⟨rfl, rfl, rfl, rfl⟩, rfl, fun _ _ => rfl⟩
  unfold Cpu.execCop0
  dsimp only
  split
  · exact coherent.of_same (wrReg_sameMemory _ _ _)
  · split
    case h_2 =>
      unfold Cpu.CacheCoherent
      dsimp only
      split
      · exact coherentIn_flush
      · exact coherent
    case h_5 => exact coherent.of_kept rfl (isolated _)
    all_goals exact coherent
  · split <;> exact coherent
  · exact coherent

theorem pcHooks_coherent (coherent : cpu.CacheCoherent allowed) :
    cpu.recordPc.pcHooks.CacheCoherent allowed := by
  have recorded : cpu.recordPc.probeHook.recordCycles.CacheCoherent allowed := by
    refine coherent.of_kept ?_ ?_
    · unfold Cpu.probeHook
      split <;> rfl
    · unfold Cpu.probeHook
      split <;> exact ⟨⟨rfl, rfl, rfl, rfl⟩, rfl, fun _ _ => rfl⟩
  unfold Cpu.pcHooks Cpu.lanceHook
  split
  · exact recorded
  · exact recorded

theorem pcHooks_pc (cpu : Cpu δ) : cpu.recordPc.pcHooks.pc = cpu.pc := by
  unfold Cpu.pcHooks Cpu.lanceHook Cpu.probeHook Cpu.recordCycles
  dsimp only
  repeat' split
  all_goals rfl

variable [Mmio δ]

theorem load_cacheCoherent (coherent : cpu.CacheCoherent allowed) (va : Word) (size : Size) :
    (cpu.load va size).2.CacheCoherent allowed := by
  unfold Cpu.CacheCoherent Coherent at coherent ⊢
  exact load_coherentIn coherent va size

theorem fetch_cacheCoherent (coherent : cpu.CacheCoherent allowed) (va : Word) :
    (cpu.fetch va).2.CacheCoherent allowed := by
  unfold Cpu.CacheCoherent at coherent ⊢
  exact fetch_coherent coherent va

theorem fetch_memory (coherent : cpu.CacheCoherent allowed) {va : Word}
    (tracked : Tracked allowed cpu.bus (mipsVaToPa va)) (notStub0 : mipsVaToPa va ≠ 0x00000000#32)
    (notStub4 : mipsVaToPa va ≠ 0x00000004#32) :
    (cpu.fetch va).1 = (busRead cpu.bus va .four).1 := by
  unfold Cpu.CacheCoherent at coherent
  exact fetch_value coherent tracked notStub0 notStub4

theorem fetch_uncached {va : Word} (bypass : uncached va = true) :
    (cpu.fetch va).1 = (busRead cpu.bus va .four).1 := by
  unfold Cpu.fetch
  rw [if_pos bypass]
  rfl

theorem busWrite_keeps {b : Bus δ} {va : Word} (value : Word) (size : Size)
    (device : 0x0F000000 ≤ (mipsVaToPa va).toNat) : KeepsMemory b (busWrite b va value size) := by
  refine ⟨busWrite_fixed b va value size, funext fun offset => ?_, fun offset _ => ?_⟩
  · rcases busWrite_dram b va value size offset with same | written
    · exact same
    · omega
  · rcases busWrite_shadow b va value size offset with same | written
    · exact same
    · have below : (mipsVaToPa va).toNat < 0x0F000000 := written.1.2
      omega

theorem syscall_coherent (coherent : cpu.CacheCoherent allowed) (pc : Word) :
    (cpu.syscall pc).CacheCoherent allowed := by
  have loaded := load_cacheCoherent coherent 0x80000080#32 .four
  have device : 0x0F000000 ≤ (mipsVaToPa 0xBE88002C#32).toNat := by decide
  unfold Cpu.syscall
  generalize cpu.load 0x80000080#32 .four = result at loaded ⊢
  obtain ⟨vec, cpu'⟩ := result
  dsimp only at loaded ⊢
  split
  · exact loaded.of_same ⟨rfl, rfl⟩
  · split
    · exact loaded.of_kept rfl (busWrite_keeps _ _ device)
    · exact loaded.of_same ⟨rfl, rfl⟩

theorem execSpecial_coherent (coherent : cpu.CacheCoherent allowed) (pc insn : Word) :
    (cpu.execSpecial pc insn).CacheCoherent allowed := by
  unfold Cpu.execSpecial
  dsimp only
  split <;> first
    | exact coherent.of_same (wrReg_sameMemory _ _ _)
    | exact syscall_coherent coherent pc
    | exact coherent
    | (split <;> first | exact coherent | (split <;> exact coherent))

theorem load_clear {va va' : Word} {size size' : Size} {invalidates : Bool}
    (clear : StoreClear cpu.icache va size invalidates) :
    StoreClear (cpu.load va' size').2.icache va size invalidates := by
  intro i small
  refine (clear i small).imp_right fun uncachedByte => ?_
  unfold Cpu.load
  dsimp only
  split
  · exact not_cachedLine_flush _ _
  · exact uncachedByte

theorem execute_coherent (oneName : OneName allowed) (coherent : cpu.CacheCoherent allowed)
    (pc insn : Word)
    (named : ∀ store ∈ storeOf cpu.r insn,
      uncached store.va = false ∧ StoreNamed allowed store.va store.size)
    (clear : ∀ store ∈ storeOf cpu.r insn,
      StoreClear cpu.icache store.va store.size store.invalidates) :
    (cpu.execute pc insn).CacheCoherent allowed := by
  unfold Cpu.execute
  dsimp only
  split
  case h_1 => exact execSpecial_coherent coherent pc insn
  case h_2 => exact coherent.of_same (execRegimm_sameMemory _ _ _)
  case h_23 code =>
    have store : storeOf cpu.r insn = some ⟨cpu.r (rs insn) + simm insn, .one, true⟩ := by
      simp [storeOf, code]
    exact store_coherent oneName coherent (named _ store).1 (named _ store).2 (clear _ store)
  case h_24 code =>
    have store : storeOf cpu.r insn = some ⟨cpu.r (rs insn) + simm insn, .two, true⟩ := by
      simp [storeOf, code]
    exact store_coherent oneName coherent (named _ store).1 (named _ store).2 (clear _ store)
  case h_25 code =>
    have store : storeOf cpu.r insn = some ⟨cpu.r (rs insn) + simm insn, .four, true⟩ := by
      simp [storeOf, code]
    exact store_coherent oneName coherent (named _ store).1 (named _ store).2 (clear _ store)
  case h_28 code =>
    have store : storeOf cpu.r insn =
        some ⟨(cpu.r (rs insn) + simm insn) &&& ~~~3#32, .four, false⟩ := by
      simp [storeOf, code]
    exact busWrite_coherent oneName (load_cacheCoherent coherent _ _) (named _ store).2
      (load_clear (clear _ store))
  case h_29 code =>
    have store : storeOf cpu.r insn =
        some ⟨(cpu.r (rs insn) + simm insn) &&& ~~~3#32, .four, false⟩ := by
      simp [storeOf, code]
    exact busWrite_coherent oneName (load_cacheCoherent coherent _ _) (named _ store).2
      (load_clear (clear _ store))
  all_goals first
    | exact (load_cacheCoherent coherent _ _).of_same (wrReg_sameMemory _ _ _)
    | exact coherent.of_same (wrReg_sameMemory _ _ _)
    | exact coherent.of_same (branchIf_sameMemory _ _ _ _)
    | exact execCop0_coherent coherent insn
    | exact coherent

end Execution

section Runs

variable {δ : Type} [Mmio δ]

def mipsReset (cpu : Cpu δ) (b : Bus δ) : Cpu δ :=
  { cpu with
    r := fun _ => 0
    hi := 0
    lo := 0
    pc := 0xBFC00000#32
    nextPc := 0xBFC00004#32
    cp0Status := 0x00400000#32
    cp0Cause := 0
    cp0Epc := 0
    cp0Prid := 0x00000230#32
    inDelaySlot := false
    branchTaken := false
    bus := b
    cycles := 0
    halted := false
    icache := icacheFlushAll cpu.icache }

/-- The machine at the fetch of its next step. -/
def Cpu.fetching (cpu : Cpu δ) : Cpu δ :=
  (cpu.checkInterrupts cpu.pc).recordPc.pcHooks

def Cpu.Fetches (cpu : Cpu δ) : Prop :=
  cpu.Running ∧ (cpu.checkInterrupts cpu.pc).recordPc.bootRedirect = false

def Cpu.fetchedInsn (cpu : Cpu δ) : Word :=
  (cpu.fetching.fetch cpu.fetching.pc).1

/-- The machine that executes it. -/
def Cpu.executing (cpu : Cpu δ) : Cpu δ :=
  { (cpu.fetching.fetch cpu.fetching.pc).2 with branchTaken := false }

def Cpu.nextStore (cpu : Cpu δ) : Option StoreOp :=
  storeOf cpu.executing.r cpu.fetchedInsn

/-- The step keeps to the names in use, and its store is cached. -/
structure Disciplined (allowed : Word → Prop) (cpu : Cpu δ) : Prop where
  fetch : allowed (mipsVaToPa cpu.fetching.pc &&& ~~~3#32)
  stores : ∀ store ∈ cpu.nextStore,
    uncached store.va = false ∧ StoreNamed allowed store.va store.size

/-- The condition on a step: a cached fetch is of an aligned word and of no
device register, and no byte that the step stores stays in the cache. -/
structure CacheClear (cpu : Cpu δ) : Prop where
  aligned : uncached cpu.fetching.pc = false → cpu.fetching.pc.toNat % 4 = 0
  memory : uncached cpu.fetching.pc = false →
    cpu.fetching.bus.Stored (mipsVaToPa cpu.fetching.pc)
  stores : ∀ store ∈ cpu.nextStore,
    StoreClear cpu.executing.icache store.va store.size store.invalidates

/-- The next fetch returns what the bus would read. -/
def FetchesMemory (cpu : Cpu δ) : Prop :=
  cpu.Fetches → mipsVaToPa cpu.fetching.pc ≠ 0x00000000#32 →
    mipsVaToPa cpu.fetching.pc ≠ 0x00000004#32 →
    mipsVaToPa cpu.fetching.pc ∉ interceptedWords →
    cpu.fetchedInsn = (busRead cpu.fetching.bus cpu.fetching.pc .four).1

variable {allowed : Word → Prop} {cpu : Cpu δ}

theorem checkInterrupts_coherent (coherent : cpu.CacheCoherent allowed) (pc : Word) :
    (cpu.checkInterrupts pc).CacheCoherent allowed := by
  have kept : KeepsMemory cpu.bus (cpu.checkInterrupts pc).bus := by
    unfold Cpu.checkInterrupts
    dsimp only
    split <;> exact ⟨⟨rfl, rfl, rfl, rfl⟩, rfl, fun _ _ => rfl⟩
  refine coherent.of_kept ?_ kept
  unfold Cpu.checkInterrupts
  dsimp only
  split <;> rfl

theorem bootFlashEntry_coherent (coherent : cpu.CacheCoherent allowed) :
    cpu.recordPc.bootFlashEntry.CacheCoherent allowed := by
  have marked : ({ cpu.recordPc with
      bus := { cpu.recordPc.bus with
        bootFlashDone := true, ecoffPreloaded := false } } : Cpu δ).CacheCoherent allowed :=
    coherent.of_kept rfl ⟨⟨rfl, rfl, rfl, rfl⟩, rfl, fun _ _ => rfl⟩
  have loaded := load_cacheCoherent marked 0xBF800000#32 .four
  unfold Cpu.bootFlashEntry
  dsimp only
  generalize Cpu.load (δ := δ) _ 0xBF800000#32 .four = result at loaded ⊢
  exact loaded.of_same ⟨rfl, rfl⟩

theorem executing_coherent (coherent : cpu.CacheCoherent allowed) :
    cpu.executing.CacheCoherent allowed := by
  have fetching : cpu.fetching.CacheCoherent allowed :=
    pcHooks_coherent (checkInterrupts_coherent coherent cpu.pc)
  have fetched := fetch_cacheCoherent fetching cpu.fetching.pc
  unfold Cpu.executing
  generalize cpu.fetching.fetch cpu.fetching.pc = result at fetched ⊢
  exact fetched.of_same ⟨rfl, rfl⟩

theorem mipsStep_coherent (oneName : OneName allowed) (coherent : cpu.CacheCoherent allowed)
    (disciplined : cpu.Fetches → Disciplined allowed cpu) (clear : cpu.Fetches → CacheClear cpu) :
    cpu.mipsStep.CacheCoherent allowed := by
  have checked := checkInterrupts_coherent coherent cpu.pc
  unfold Cpu.mipsStep
  split
  case isTrue => exact coherent
  case isFalse active =>
    have running : cpu.Running := by
      simpa [Cpu.Running] using active
    cases redirect : (cpu.checkInterrupts cpu.pc).recordPc.bootRedirect with
    | true =>
        rw [Cpu.stepInstruction, if_pos redirect]
        exact bootFlashEntry_coherent checked
    | false =>
        have fetches : cpu.Fetches := ⟨running, redirect⟩
        have executed := execute_coherent oneName (executing_coherent coherent)
          cpu.fetching.pc cpu.fetchedInsn (disciplined fetches).stores (clear fetches).stores
        have samePc : cpu.fetching.pc = (cpu.checkInterrupts cpu.pc).pc := pcHooks_pc _
        unfold Cpu.executing Cpu.fetchedInsn at executed
        rw [samePc] at executed
        rw [stepInstruction_eq redirect]
        exact executed.of_same ⟨rfl, rfl⟩

/-- In a coherent machine the fetch returns what the bus would read. -/
theorem fetchesMemory_of_coherent (coherent : cpu.CacheCoherent allowed)
    (disciplined : cpu.Fetches → Disciplined allowed cpu) (clear : cpu.Fetches → CacheClear cpu) :
    FetchesMemory cpu := by
  intro fetches notStub0 notStub4 plain
  cases bypass : uncached cpu.fetching.pc with
  | true => exact fetch_uncached bypass
  | false =>
  have aligned := (clear fetches).aligned bypass
  have alignedPa : (mipsVaToPa cpu.fetching.pc).toNat % 4 = 0 := by
    rw [toNat_mipsVaToPa_mod]
    exact aligned
  have itself : mipsVaToPa cpu.fetching.pc &&& ~~~3#32 = mipsVaToPa cpu.fetching.pc := by
    apply BitVec.eq_of_toNat_eq
    rw [toNat_and_not_3]
    omega
  have named := (disciplined fetches).fetch
  rw [itself] at named
  have fetching : cpu.fetching.CacheCoherent allowed :=
    pcHooks_coherent (checkInterrupts_coherent coherent cpu.pc)
  have tracked : Tracked allowed cpu.fetching.bus (mipsVaToPa cpu.fetching.pc) :=
    ⟨alignedPa, (clear fetches).memory bypass, plain, named⟩
  exact fetch_memory fetching tracked notStub0 notStub4

theorem mipsRun_coherent (oneName : OneName allowed) {b : Bus δ} {steps : Nat}
    (disciplined : ∀ k < steps, ((mipsReset cpu b).mipsRun k).Fetches →
      Disciplined allowed ((mipsReset cpu b).mipsRun k))
    (clear : ∀ k < steps, ((mipsReset cpu b).mipsRun k).Fetches →
      CacheClear ((mipsReset cpu b).mipsRun k)) {k : Nat} (bound : k ≤ steps) :
    ((mipsReset cpu b).mipsRun k).CacheCoherent allowed := by
  induction k with
  | zero =>
      have empty : Coherent allowed (icacheFlushAll cpu.icache) b := coherentIn_flush
      exact empty
  | succ k ih =>
      rw [Cpu.mipsRun, Function.iterate_succ_apply']
      exact mipsStep_coherent oneName (ih (Nat.le_of_succ_le bound)) (disciplined k bound)
        (clear k bound)

/-- From reset on, every fetch of a run whose steps meet the condition returns
what the bus would read. -/
theorem fetchesMemory_of_run (oneName : OneName allowed) (cpu : Cpu δ) (b : Bus δ) (steps : Nat)
    (disciplined : ∀ k < steps, ((mipsReset cpu b).mipsRun k).Fetches →
      Disciplined allowed ((mipsReset cpu b).mipsRun k))
    (clear : ∀ k < steps, ((mipsReset cpu b).mipsRun k).Fetches →
      CacheClear ((mipsReset cpu b).mipsRun k)) :
    ∀ k < steps, FetchesMemory ((mipsReset cpu b).mipsRun k) := by
  intro k bound
  exact fetchesMemory_of_coherent (mipsRun_coherent oneName disciplined clear bound.le)
    (disciplined k bound) (clear k bound)

end Runs

section Programs

/-- The names of a program that reaches DRAM at its first mirror alone. -/
def FirstMirror (pa : Word) : Prop := pa.toNat < 0x00400000 ∨ 0x0EC00000 ≤ pa.toNat

instance (pa : Word) : Decidable (FirstMirror pa) :=
  inferInstanceAs (Decidable (_ ∨ _))

theorem oneName_firstMirror : OneName FirstMirror := by
  intro p q first second same
  rcases same with equal | ⟨low, low', word⟩
  · exact equal
  · have small : p.toNat < 0x0EC00000 := low
    have small' : q.toNat < 0x0EC00000 := low'
    apply BitVec.eq_of_toNat_eq
    rcases first with first | first <;> rcases second with second | second <;> omega

instance (icache : BitVec 8 → IcacheLine) (pa : Word) : Decidable (CachedLine icache pa) :=
  inferInstanceAs (Decidable (_ = _))

instance (icache : BitVec 8 → IcacheLine) (va : Word) (size : Size) (invalidates : Bool) :
    Decidable (StoreClear icache va size invalidates) :=
  inferInstanceAs (Decidable (∀ i < size.bytes, _))

instance (va : Word) (size : Size) : Decidable (StoreNamed FirstMirror va size) :=
  inferInstanceAs (Decidable (∀ i < size.bytes, _))

instance (b : Bus Unit) (pa : Word) : Decidable (b.Stored pa) :=
  inferInstanceAs (Decidable (_ ∨ _))

/-- A program in ROM that writes `jr $ra` to `0x80001000`, calls it, writes a
`break` over it with the given instruction and calls it again. -/
def patchMachine (patch : Word) : Cpu Unit :=
  mipsReset (bareMachine fun _ => 0)
    { (bareMachine fun _ => 0).bus with
      rom := storeWords (fun _ => 0) 0
        [0x3C088000#32, 0x35081000#32, 0x3C0903E0#32, 0x35290008#32, 0xAD090000#32,
          0x0100F809#32, 0x00000000#32, 0x240A000D#32, patch, 0x0100F809#32, 0x00000000#32] }

theorem fetchesMemory_of_run_sw : FetchesMemory ((patchMachine 0xAD0A0000#32).mipsRun 13) := by
  refine fetchesMemory_of_run oneName_firstMirror _ _ 14 ?_ ?_ 13 (by decide)
  · intro k bound _
    constructor <;> interval_cases k <;> decide +kernel
  · intro k bound _
    constructor <;> interval_cases k <;> decide +kernel

/-- With SWR for the patch the second call runs the old `jr $ra`. -/
theorem swr_leaves_stale_line :
    OneName FirstMirror ∧
      (∀ k < 14, Disciplined FirstMirror ((patchMachine 0xB90A0003#32).mipsRun k)) ∧
      ¬ FetchesMemory ((patchMachine 0xB90A0003#32).mipsRun 13) := by
  refine ⟨oneName_firstMirror, ?_, ?_⟩
  · intro k bound
    constructor <;> interval_cases k <;> decide +kernel
  · intro memory
    have fetched := memory (by constructor <;> decide +kernel) (by decide +kernel)
      (by decide +kernel) (by decide +kernel)
    revert fetched
    decide +kernel

end Programs

end Ncd15.Emulator
