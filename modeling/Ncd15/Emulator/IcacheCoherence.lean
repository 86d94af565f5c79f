import Ncd15.Emulator.BusSafety

/-!
# Coherence of the instruction cache

The cache holds words by physical address.  A word of memory may have several
physical names, of which a program uses one; a coherent cache holds under that
name the word in memory.  Loads, refills and flushes keep it coherent.
-/

namespace Ncd15.Emulator

section Words

variable {δ : Type}

/-- The words of the shadow bank that `bus_read` may answer without the array. -/
def interceptedWords : List Word :=
  [0x0EC00730#32, 0x0EC000C8#32, 0x0EC000EC#32, 0x0EC00104#32, 0x0EC000CC#32, 0x0EC008EC#32,
    0x0EC008F0#32, 0x0EC00C58#32, 0x0EC00DC0#32, 0x0EC00DD4#32]

theorem shadowIntercept_four (b : Bus δ) {pa : Word} (plain : pa ∉ interceptedWords) :
    shadowIntercept b pa .four = none := by
  simp only [interceptedWords, List.mem_cons, List.not_mem_nil, or_false, not_or] at plain
  simp [shadowIntercept, plain]

/-- The physical addresses behind which there is an array or nothing at all. -/
def Bus.Stored (b : Bus δ) (pa : Word) : Prop :=
  InRom pa ∨ InShadow pa ∨ b.InFlash pa ∨ pa < 0x0EC00000#32 ∨ findMmio pa = none

/-- The memory word at a physical address. -/
def Bus.wordAt (b : Bus δ) (pa : Word) : Word :=
  if InRom pa then ldBe b.rom (pa - 0x1FC00000#32).toNat .four
  else if InShadow pa then ldBe b.shadow (pa - 0x0EC00000#32).toNat .four
  else if b.InFlash pa then ldBe b.flash (pa - 0x1F800000#32).toNat .four
  else if pa < 0x0EC00000#32 then ldBe b.dram (pa &&& (dramSize - 1)).toNat .four
  else 0xFFFFFFFF#32

theorem wordAt_shadow {b : Bus δ} {pa : Word} (shadow : InShadow pa) :
    b.wordAt pa = ldBe b.shadow (pa - 0x0EC00000#32).toNat .four :=
  (if_neg (not_inRom_of_lt shadow.2)).trans (if_pos shadow)

theorem wordAt_dram {b : Bus δ} {pa : Word} (low : pa < 0x0EC00000#32) :
    b.wordAt pa = ldBe b.dram (pa &&& (dramSize - 1)).toNat .four :=
  (if_neg (not_inRom_of_lt (lt_of_dram low))).trans
    ((if_neg (not_inShadow_of_lt low)).trans
      ((if_neg (not_inFlash_of_lt (lt_of_dram low))).trans (if_pos low)))

theorem busRead_stored [Mmio δ] {b : Bus δ} {va : Word} (stored : b.Stored (mipsVaToPa va))
    (plain : mipsVaToPa va ∉ interceptedWords) :
    (busRead b va .four).1 = b.wordAt (mipsVaToPa va) := by
  unfold Bus.wordAt
  by_cases rom : InRom (mipsVaToPa va)
  · rw [if_pos rom]
    exact congrArg Prod.fst (if_pos rom)
  rw [if_neg rom]
  by_cases shadow : InShadow (mipsVaToPa va)
  · rw [if_pos shadow, show busRead b va .four = _ from (if_neg rom).trans (if_pos shadow),
      shadowIntercept_four b plain]
  rw [if_neg shadow]
  by_cases flash : b.InFlash (mipsVaToPa va)
  · rw [if_pos flash, show busRead b va .four = _ from
      (if_neg rom).trans ((if_neg shadow).trans (if_pos flash))]
    split <;> rfl
  rw [if_neg flash]
  by_cases dram : mipsVaToPa va < 0x0EC00000#32
  · rw [if_pos dram, show busRead b va .four = _ from
      (if_neg rom).trans ((if_neg shadow).trans ((if_neg flash).trans (if_pos dram)))]
  rw [if_neg dram]
  have noDevice : findMmio (mipsVaToPa va) = none := by
    rcases stored with in1 | in2 | in3 | in4 | none
    · exact absurd in1 rom
    · exact absurd in2 shadow
    · exact absurd in3 flash
    · exact absurd in4 dram
    · exact none
  have notVram : ¬ (0x0EC80000#32 ≤ mipsVaToPa va ∧
      mipsVaToPa va < 0x0EC80000#32 + 0x00080000#32) := by
    intro vram
    refine shadow ⟨BitVec.not_lt.mp dram, ?_⟩
    have high := vram.2
    bv_omega
  rw [show busRead b va .four = _ from
    (if_neg rom).trans ((if_neg shadow).trans ((if_neg flash).trans (if_neg dram))), noDevice]
  exact congrArg Prod.fst (if_neg notVram)

end Words

section Accesses

variable {δ : Type} {b c d : Bus δ}

/-- The arrays that never change, and where they are decoded. -/
structure SameFixed (b c : Bus δ) : Prop where
  rom : c.rom = b.rom
  flash : c.flash = b.flash
  hasFlash : c.hasFlash = b.hasFlash
  flashSize : c.flashSize = b.flashSize

/-- RAM keeps its contents, the tick counter at offset `0x730` aside. -/
structure KeepsMemory (b c : Bus δ) : Prop extends SameFixed b c where
  dram : c.dram = b.dram
  shadow : ∀ offset, offset < 0x730 ∨ 0x734 ≤ offset → c.shadow offset = b.shadow offset

theorem KeepsMemory.refl (b : Bus δ) : KeepsMemory b b :=
  ⟨⟨rfl, rfl, rfl, rfl⟩, rfl, fun _ _ => rfl⟩

theorem SameFixed.inFlash (fixed : SameFixed b c) (pa : Word) : c.InFlash pa ↔ b.InFlash pa := by
  rw [Bus.InFlash, Bus.InFlash, fixed.hasFlash, fixed.flashSize]

theorem SameFixed.stored (fixed : SameFixed b c) (pa : Word) : c.Stored pa ↔ b.Stored pa := by
  rw [Bus.Stored, Bus.Stored, fixed.inFlash]

theorem SameFixed.wordAt (fixed : SameFixed b c) {pa : Word} (high : 0x0F000000#32 ≤ pa) :
    c.wordAt pa = b.wordAt pa := by
  have notShadow : ¬ InShadow pa := fun shadow => absurd shadow.2 (BitVec.not_lt.mpr high)
  have notDram : ¬ pa < 0x0EC00000#32 := fun low =>
    absurd (lt_of_dram low) (BitVec.not_lt.mpr high)
  unfold Bus.wordAt
  rw [fixed.rom, fixed.flash, if_neg notShadow, if_neg notShadow]
  by_cases rom : InRom pa
  · rw [if_pos rom, if_pos rom]
  rw [if_neg rom, if_neg rom, if_neg notDram, if_neg notDram]
  simp only [fixed.inFlash]

theorem KeepsMemory.wordAt (kept : KeepsMemory b c) {pa : Word} (aligned : pa.toNat % 4 = 0)
    (plain : pa ∉ interceptedWords) : c.wordAt pa = b.wordAt pa := by
  unfold Bus.wordAt
  rw [kept.rom, kept.flash, kept.dram]
  simp only [kept.inFlash]
  by_cases rom : InRom pa
  · rw [if_pos rom, if_pos rom]
  by_cases shadow : InShadow pa
  · rw [if_neg rom, if_neg rom, if_pos shadow, if_pos shadow]
    refine ldBe_congr fun i small => kept.shadow _ ?_
    have notTicks : pa.toNat ≠ 0x0EC00730 := fun same =>
      plain (by simp [interceptedWords, show pa = 0x0EC00730#32 from BitVec.eq_of_toNat_eq same])
    have base : (pa - 0x0EC00000#32).toNat = pa.toNat - 0x0EC00000 :=
      BitVec.toNat_sub_of_le shadow.1
    have low : 0x0EC00000 ≤ pa.toNat := shadow.1
    simp only [Size.bytes] at small
    omega
  · rw [if_neg rom, if_neg rom, if_neg shadow, if_neg shadow]

theorem ite_some_eq_some_or {α : Type} {c : Prop} [Decidable c] {a x : α} {rest : Option α}
    (chosen : (if c then some a else rest) = some x) : a = x ∨ rest = some x := by
  split at chosen
  · exact .inl (Option.some.inj chosen)
  · exact .inr chosen

theorem shadowIntercept_keeps {pa value : Word} {size : Size} {shadow : Nat → BitVec 8}
    (intercepted : shadowIntercept b pa size = some (value, shadow)) (offset : Nat)
    (outside : offset < 0x730 ∨ 0x734 ≤ offset) : shadow offset = b.shadow offset := by
  unfold shadowIntercept at intercepted
  rcases ite_some_eq_some_or intercepted with done | rest
  · cases done; rfl
  rcases ite_some_eq_some_or rest with ticks | rest
  · cases ticks
    exact stBe_outside _ _ outside
  iterate 11
    rcases ite_some_eq_some_or rest with done | rest
    · cases done; rfl
  cases rest

variable [Mmio δ]

/-- A read changes memory only when it re-blits, and then it flushes. -/
theorem busRead_effect (b : Bus δ) (va : Word) (size : Size) :
    SameFixed b (busRead b va size).2.1 ∧
      ((busRead b va size).2.2 = false → KeepsMemory b (busRead b va size).2.1) ∧
      ((busRead b va size).2.2 = true → b.InFlash (mipsVaToPa va)) := by
  have kept := KeepsMemory.refl b
  unfold busRead
  dsimp only
  split
  · exact ⟨kept.toSameFixed, fun _ => kept, nofun⟩
  split
  · split
    case h_1 value shadow intercepted =>
      have ticks : KeepsMemory b { b with shadow := shadow } :=
        ⟨⟨rfl, rfl, rfl, rfl⟩, rfl, shadowIntercept_keeps intercepted⟩
      exact ⟨ticks.toSameFixed, fun _ => ticks, nofun⟩
    case h_2 => exact ⟨kept.toSameFixed, fun _ => kept, nofun⟩
  split
  case isTrue flash =>
    split
    · exact ⟨⟨rfl, rfl, rfl, rfl⟩, nofun, fun _ => flash⟩
    · exact ⟨kept.toSameFixed, fun _ => kept, nofun⟩
  split
  · exact ⟨kept.toSameFixed, fun _ => kept, nofun⟩
  split
  · exact ⟨⟨rfl, rfl, rfl, rfl⟩, fun _ => ⟨⟨rfl, rfl, rfl, rfl⟩, rfl, fun _ _ => rfl⟩, nofun⟩
  split <;> exact ⟨kept.toSameFixed, fun _ => kept, nofun⟩

end Accesses

section Addresses

/-- The word of its line that an address falls into. -/
def icacheWord (pa : Word) : BitVec 2 := pa.extractLsb' 2 2

theorem toNat_icacheTag (pa : Word) : (icacheTag pa).toNat = pa.toNat / 4096 := by
  rw [icacheTag, BitVec.toNat_ushiftRight, Nat.shiftRight_eq_div_pow]

theorem toNat_icacheIndex (pa : Word) : (icacheIndex pa).toNat = pa.toNat / 16 % 256 := by
  rw [icacheIndex, BitVec.extractLsb'_toNat, Nat.shiftRight_eq_div_pow]

theorem toNat_icacheWord (pa : Word) : (icacheWord pa).toNat = pa.toNat / 4 % 4 := by
  rw [icacheWord, BitVec.extractLsb'_toNat, Nat.shiftRight_eq_div_pow]

/-- No line of memory has the tag of an empty set. -/
theorem icacheTag_ne_empty (pa : Word) : icacheTag pa ≠ 0xFFFFFFFF#32 := by
  intro same
  have value := congrArg BitVec.toNat same
  rw [toNat_icacheTag] at value
  have bound := pa.isLt
  change pa.toNat / 4096 = 0xFFFFFFFF at value
  omega

theorem toNat_clear_low (va : Word) (k : Nat) :
    (va &&& ~~~BitVec.ofNat 32 (2 ^ k - 1)).toNat = va.toNat / 2 ^ k * 2 ^ k := by
  have shifted : va &&& ~~~BitVec.ofNat 32 (2 ^ k - 1) = (va >>> k) <<< k := by
    apply BitVec.eq_of_getLsbD_eq
    intro i bound
    rw [BitVec.getLsbD_and, BitVec.getLsbD_not, BitVec.getLsbD_shiftLeft,
      BitVec.getLsbD_ushiftRight, BitVec.getLsbD_ofNat, Nat.testBit_two_pow_sub_one]
    by_cases low : i < k
    · simp [low, bound]
    · rw [Nat.add_sub_cancel' (Nat.not_lt.mp low)]
      simp [low, bound]
  have kept : va.toNat / 2 ^ k * 2 ^ k < 2 ^ 32 :=
    Nat.lt_of_le_of_lt (Nat.div_mul_le_self _ _) va.isLt
  rw [shifted, BitVec.toNat_shiftLeft, BitVec.toNat_ushiftRight, Nat.shiftRight_eq_div_pow,
    Nat.shiftLeft_eq, Nat.mod_eq_of_lt kept]

theorem toNat_and_not_15 (va : Word) : (va &&& ~~~15#32).toNat = va.toNat / 16 * 16 :=
  toNat_clear_low va 4

theorem toNat_and_not_3 (va : Word) : (va &&& ~~~3#32).toNat = va.toNat / 4 * 4 :=
  toNat_clear_low va 2

/-- The physical address of the words of a line, in terms of the address that
missed. -/
theorem toNat_lineWord (va : Word) (word : BitVec 2) :
    (mipsVaToPa ((va &&& ~~~15#32) + word.setWidth 32 * 4)).toNat =
      (mipsVaToPa va).toNat / 16 * 16 + word.toNat * 4 := by
  have small := word.isLt
  have bound := va.isLt
  have address : ((va &&& ~~~15#32) + word.setWidth 32 * 4).toNat =
      va.toNat / 16 * 16 + word.toNat * 4 := by
    rw [BitVec.toNat_add, BitVec.toNat_mul, toNat_and_not_15, BitVec.toNat_setWidth]
    change (va.toNat / 16 * 16 + word.toNat % 2 ^ 32 * 4 % 2 ^ 32) % 2 ^ 32 = _
    omega
  rw [toNat_mipsVaToPa, toNat_mipsVaToPa, address]
  repeat' split
  all_goals omega

/-- An aligned address is the word of its line that it falls into. -/
theorem eq_lineWord {pa line : Word} (aligned : pa.toNat % 4 = 0)
    (index : icacheIndex pa = icacheIndex line) (tag : icacheTag pa = icacheTag line) :
    pa.toNat = line.toNat / 16 * 16 + (icacheWord pa).toNat * 4 := by
  have sameIndex := congrArg BitVec.toNat index
  have sameTag := congrArg BitVec.toNat tag
  rw [toNat_icacheIndex, toNat_icacheIndex] at sameIndex
  rw [toNat_icacheTag, toNat_icacheTag] at sameTag
  rw [toNat_icacheWord]
  omega

end Addresses

section Coherence

variable {δ : Type} (allowed : Word → Prop)

/-- Two physical addresses of one RAM word. -/
def SameRamWord (p q : Word) : Prop :=
  p = q ∨ p < 0x0EC00000#32 ∧ q < 0x0EC00000#32 ∧ p.toNat % 0x00400000 = q.toNat % 0x00400000

/-- Every RAM word has at most one of the names in use. -/
def OneName : Prop :=
  ∀ p q, allowed p → allowed q → SameRamWord p q → p = q

/-- The memory words that the program uses under this name, and that the bus
does not answer itself. -/
structure Tracked (b : Bus δ) (pa : Word) : Prop where
  aligned : pa.toNat % 4 = 0
  stored : b.Stored pa
  plain : pa ∉ interceptedWords
  named : allowed pa

/-- The line of an address is in the cache. -/
def CachedLine (icache : BitVec 8 → IcacheLine) (pa : Word) : Prop :=
  (icache (icacheIndex pa)).tag = icacheTag pa

/-- Cached words are the words in memory, in the sets that `sets` selects. -/
def CoherentIn (sets : BitVec 8 → Prop) (icache : BitVec 8 → IcacheLine) (b : Bus δ) : Prop :=
  ∀ pa, sets (icacheIndex pa) → Tracked allowed b pa → CachedLine icache pa →
    (icache (icacheIndex pa)).words (icacheWord pa) = b.wordAt pa

/-- Every cached word is the word in memory. -/
def Coherent (icache : BitVec 8 → IcacheLine) (b : Bus δ) : Prop :=
  CoherentIn allowed (fun _ => True) icache b

variable {allowed} {b c : Bus δ} {sets : BitVec 8 → Prop} {icache : BitVec 8 → IcacheLine}

theorem Tracked.of_fixed {pa : Word} (tracked : Tracked allowed c pa) (fixed : SameFixed b c) :
    Tracked allowed b pa :=
  { tracked with stored := (fixed.stored pa).mp tracked.stored }

theorem not_cachedLine_flush (icache : BitVec 8 → IcacheLine) (pa : Word) :
    ¬ CachedLine (icacheFlushAll icache) pa :=
  fun cached => icacheTag_ne_empty pa cached.symm

theorem coherentIn_flush : CoherentIn allowed sets (icacheFlushAll icache) b :=
  fun pa _ _ cached => absurd cached (not_cachedLine_flush icache pa)

theorem CoherentIn.of_kept (coherent : CoherentIn allowed sets icache b)
    (kept : KeepsMemory b c) : CoherentIn allowed sets icache c := by
  intro pa inSets tracked cached
  rw [kept.wordAt tracked.aligned tracked.plain]
  exact coherent pa inSets (tracked.of_fixed kept.toSameFixed) cached

theorem SameFixed.trans {d : Bus δ} (first : SameFixed b c) (second : SameFixed c d) :
    SameFixed b d :=
  ⟨second.rom.trans first.rom, second.flash.trans first.flash,
    second.hasFlash.trans first.hasFlash, second.flashSize.trans first.flashSize⟩

theorem Tracked.to_fixed {pa : Word} (tracked : Tracked allowed b pa) (fixed : SameFixed b c) :
    Tracked allowed c pa :=
  { tracked with stored := (fixed.stored pa).mpr tracked.stored }

variable [Mmio δ] {cpu : Cpu δ}

theorem load_coherentIn (coherent : CoherentIn allowed sets cpu.icache cpu.bus) (va : Word)
    (size : Size) :
    CoherentIn allowed sets (cpu.load va size).2.icache (cpu.load va size).2.bus := by
  obtain ⟨-, kept, -⟩ := busRead_effect cpu.bus va size
  unfold Cpu.load
  dsimp only
  cases flushed : (busRead cpu.bus va size).2.2 with
  | true => exact coherentIn_flush
  | false => exact coherent.of_kept (kept flushed)

/-- A load from a line keeps the words of that line, re-blit or not. -/
theorem load_keeps_line {va pa : Word} {line : Nat} (size : Size) (base : line % 16 = 0)
    (loaded : line ≤ (mipsVaToPa va).toNat ∧ (mipsVaToPa va).toNat < line + 16)
    (inLine : line ≤ pa.toNat) (tracked : Tracked allowed cpu.bus pa) :
    (cpu.load va size).2.bus.wordAt pa = cpu.bus.wordAt pa := by
  obtain ⟨fixed, kept, inFlash⟩ := busRead_effect cpu.bus va size
  change (busRead cpu.bus va size).2.1.wordAt pa = _
  cases flushed : (busRead cpu.bus va size).2.2 with
  | false => exact (kept flushed).wordAt tracked.aligned tracked.plain
  | true =>
      have flash : 0x1F800000 ≤ (mipsVaToPa va).toNat := (inFlash flushed).2.1
      refine fixed.wordAt ?_
      change 0x0F000000 ≤ pa.toNat
      omega

/-- What holds in the middle of a refill: the other sets are coherent, and the
words read so far are those of memory before the refill. -/
structure Refilling (allowed : Word → Prop) (start : Bus δ) (index : BitVec 8) (line : Nat)
    (done : List (BitVec 2)) (cpu : Cpu δ) : Prop where
  others : CoherentIn allowed (· ≠ index) cpu.icache cpu.bus
  fixed : SameFixed start cpu.bus
  kept : ∀ pa, line ≤ pa.toNat → pa.toNat < line + 16 → Tracked allowed start pa →
    cpu.bus.wordAt pa = start.wordAt pa
  words : ∀ word ∈ done, ∀ pa : Word, pa.toNat = line + word.toNat * 4 →
    Tracked allowed start pa → (cpu.icache index).words word = start.wordAt pa

theorem load_words (cpu : Cpu δ) (va : Word) (size : Size) (index : BitVec 8) :
    ((cpu.load va size).2.icache index).words = (cpu.icache index).words := by
  unfold Cpu.load
  dsimp only
  split <;> rfl

theorem Refilling.step {start : Bus δ} {va : Word} {done : List (BitVec 2)}
    (refilling : Refilling allowed start (icacheIndex (mipsVaToPa va))
      ((mipsVaToPa va).toNat / 16 * 16) done cpu) (word : BitVec 2) :
    Refilling allowed start (icacheIndex (mipsVaToPa va)) ((mipsVaToPa va).toNat / 16 * 16)
      (word :: done)
      (cpu.refillWord (icacheIndex (mipsVaToPa va)) (va &&& ~~~15#32) word) := by
  have fixed := (busRead_effect cpu.bus ((va &&& ~~~15#32) + word.setWidth 32 * 4) .four).1
  have address := toNat_lineWord va word
  have small := word.isLt
  have keeps : ∀ pa : Word, (mipsVaToPa va).toNat / 16 * 16 ≤ pa.toNat →
      pa.toNat < (mipsVaToPa va).toNat / 16 * 16 + 16 → Tracked allowed start pa →
      (cpu.load ((va &&& ~~~15#32) + word.setWidth 32 * 4) .four).2.bus.wordAt pa =
        start.wordAt pa := by
    intro pa low high tracked
    have loaded : (mipsVaToPa va).toNat / 16 * 16 ≤
          (mipsVaToPa ((va &&& ~~~15#32) + word.setWidth 32 * 4)).toNat ∧
        (mipsVaToPa ((va &&& ~~~15#32) + word.setWidth 32 * 4)).toNat <
          (mipsVaToPa va).toNat / 16 * 16 + 16 := by
      rw [address]
      omega
    exact (load_keeps_line .four (Nat.mul_mod_left _ 16) loaded low
      (tracked.to_fixed refilling.fixed)).trans (refilling.kept pa low high tracked)
  constructor
  case others =>
    intro pa other tracked cached
    have loaded := load_coherentIn refilling.others ((va &&& ~~~15#32) + word.setWidth 32 * 4)
      .four pa other tracked
    simp only [Cpu.refillWord, CachedLine, Function.update_of_ne other] at cached ⊢
    exact loaded cached
  case fixed => exact refilling.fixed.trans fixed
  case kept => exact keeps
  case words =>
    intro read member pa place tracked
    have index : ((cpu.refillWord (icacheIndex (mipsVaToPa va)) (va &&& ~~~15#32) word).icache
        (icacheIndex (mipsVaToPa va))).words =
        Function.update (cpu.icache (icacheIndex (mipsVaToPa va))).words word
          (cpu.load ((va &&& ~~~15#32) + word.setWidth 32 * 4) .four).1 := by
      simp only [Cpu.refillWord, Function.update_self]
      rw [load_words]
    rw [index]
    by_cases same : read = word
    · subst same
      have physical : mipsVaToPa ((va &&& ~~~15#32) + read.setWidth 32 * 4) = pa :=
        BitVec.eq_of_toNat_eq (address.trans place.symm)
      rw [Function.update_self]
      have now := tracked.to_fixed refilling.fixed
      have value := busRead_stored (physical.symm ▸ now.stored) (physical.symm ▸ now.plain)
      rw [physical] at value
      exact value.trans (refilling.kept pa (by omega) (by omega) tracked)
    · rw [Function.update_of_ne same]
      rcases List.mem_cons.mp member with rfl | earlier
      · exact absurd rfl same
      · exact refilling.words read earlier pa place tracked

theorem refillWords_refilling {start : Bus δ} {va : Word} (words : List (BitVec 2))
    {done : List (BitVec 2)}
    (refilling : Refilling allowed start (icacheIndex (mipsVaToPa va))
      ((mipsVaToPa va).toNat / 16 * 16) done cpu) :
    Refilling allowed start (icacheIndex (mipsVaToPa va)) ((mipsVaToPa va).toNat / 16 * 16)
      (words.reverse ++ done)
      (cpu.refillWords (icacheIndex (mipsVaToPa va)) (va &&& ~~~15#32) words) := by
  induction words generalizing cpu done with
  | nil => exact refilling
  | cons word words ih =>
      rw [List.reverse_cons, List.append_assoc]
      exact ih (refilling.step word)

/-- A refill makes its line coherent and keeps the line's words in memory. -/
theorem refillLine_coherent (coherent : Coherent allowed cpu.icache cpu.bus) (va : Word) :
    Coherent allowed (cpu.refillLine va).icache (cpu.refillLine va).bus ∧
      SameFixed cpu.bus (cpu.refillLine va).bus ∧
      ∀ pa, icacheIndex pa = icacheIndex (mipsVaToPa va) →
        icacheTag pa = icacheTag (mipsVaToPa va) → Tracked allowed cpu.bus pa →
        (cpu.refillLine va).bus.wordAt pa = cpu.bus.wordAt pa := by
  have initial : Refilling allowed cpu.bus (icacheIndex (mipsVaToPa va))
      ((mipsVaToPa va).toNat / 16 * 16) [] cpu :=
    ⟨fun pa _ => coherent pa trivial, ⟨rfl, rfl, rfl, rfl⟩, fun _ _ _ _ => rfl, nofun⟩
  have filled := refillWords_refilling [0, 1, 2, 3] initial
  have everyWord : ∀ word : BitVec 2, word ∈ [0, 1, 2, 3].reverse ++ ([] : List (BitVec 2)) := by
    decide
  have keeps : ∀ pa, icacheIndex pa = icacheIndex (mipsVaToPa va) →
      icacheTag pa = icacheTag (mipsVaToPa va) → Tracked allowed cpu.bus pa →
      (cpu.refillLine va).bus.wordAt pa = cpu.bus.wordAt pa := by
    intro pa index tag tracked
    have place := eq_lineWord tracked.aligned index tag
    have small := (icacheWord pa).isLt
    exact filled.kept pa (by omega) (by omega) tracked
  refine ⟨?_, filled.fixed, keeps⟩
  intro pa _ tracked cached
  have before := tracked.of_fixed filled.fixed
  by_cases index : icacheIndex pa = icacheIndex (mipsVaToPa va)
  · simp only [Cpu.refillLine, CachedLine, index, Function.update_self] at cached ⊢
    exact (filled.words _ (everyWord _) pa (eq_lineWord tracked.aligned index cached.symm)
      before).trans (keeps pa index cached.symm before).symm
  · simp only [Cpu.refillLine, CachedLine, Function.update_of_ne index] at cached ⊢
    exact filled.others pa index tracked cached

theorem fetch_coherent (coherent : Coherent allowed cpu.icache cpu.bus) (va : Word) :
    Coherent allowed (cpu.fetch va).2.icache (cpu.fetch va).2.bus := by
  unfold Cpu.fetch
  split
  · exact load_coherentIn coherent va .four
  split
  · exact coherent
  split
  · exact coherent
  unfold Cpu.fetchCached
  dsimp only
  split
  · exact (refillLine_coherent coherent va).1
  · exact coherent

/-- A fetch of a tracked word returns what the bus would read. -/
theorem fetch_value (coherent : Coherent allowed cpu.icache cpu.bus) {va : Word}
    (tracked : Tracked allowed cpu.bus (mipsVaToPa va)) (notStub0 : mipsVaToPa va ≠ 0x00000000#32)
    (notStub4 : mipsVaToPa va ≠ 0x00000004#32) :
    (cpu.fetch va).1 = (busRead cpu.bus va .four).1 := by
  unfold Cpu.fetch
  split
  · rfl
  rw [busRead_stored tracked.stored tracked.plain]
  unfold Cpu.fetchCached
  dsimp only
  split
  case isTrue missed =>
    obtain ⟨filled, fixed, keeps⟩ := refillLine_coherent coherent va
    have cached : CachedLine (cpu.refillLine va).icache (mipsVaToPa va) := by
      simp only [Cpu.refillLine, CachedLine, Function.update_self]
    exact (filled _ trivial (tracked.to_fixed fixed) cached).trans (keeps _ rfl rfl tracked)
  case isFalse hit => exact coherent _ trivial tracked (not_not.mp hit)

end Coherence

end Ncd15.Emulator
