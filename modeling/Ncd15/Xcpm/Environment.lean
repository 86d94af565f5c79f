import Ncd15.Xcpm.LineEditor

/-!
# The environment block

`env_find`, `env_get` and `env_set` on the packed block of strings `NAME=VALUE`.  A setting
that replaces another one removes it before it looks for room, so that it is lost when there
is none.
-/

namespace Ncd15.Xcpm

open Ncd15.Library

section Block

/-- `ENV_BLOCK_SIZE`. -/
abbrev envBlockSize : Nat := 256

/-- `env_block` and `env_used`. -/
structure Env where
  block : Buffer envBlockSize
  used : Nat

namespace Env

/-- The block before anything is set. -/
def empty : Env := { block := Buffer.zero, used := 0 }

/-- Where the bytes from a position on end that pass a test, with what is left of the block in
front; `none` for a read behind the block. -/
def scanBlock (block : Buffer envBlockSize) (p : UInt8 → Bool) : Nat → Nat → Option Nat
  | 0, _ => none
  | left + 1, pos =>
      if p (block.get pos) then scanBlock block p left (pos + 1) else some pos

/-- `while (*e && *e != '=') e++`. -/
def toEquals (env : Env) (pos : Nat) : Option Nat :=
  scanBlock env.block (fun c => c ≠ 0 && c ≠ 61) (envBlockSize - pos) pos

/-- `while (*e) e++`. -/
def toEnd (env : Env) (pos : Nat) : Option Nat :=
  scanBlock env.block (· ≠ 0) (envBlockSize - pos) pos

/-- The loop of `env_find`; each round moves on, so that `env_used` rounds are enough. -/
def findFrom (env : Env) (name : List UInt8) : Nat → Nat → Option (Option Nat)
  | 0, _ => some none
  | left + 1, i =>
      if i < env.used then do
        let stop ← env.toEquals i
        if stop - i = name.length ∧
            strieqn name.length (env.block.slice i name.length) name ∧ env.block.get stop = 61 then
          some (some i)
        else findFrom env name left ((← env.toEnd i) + 1)
      else some none

/-- `env_find`: `none` for an access outside the block, `some none` for the null pointer. -/
def find (env : Env) (name : List UInt8) : Option (Option Nat) := env.findFrom name env.used 0

/-- `env_get` and the string behind its pointer. -/
def get (env : Env) (name : List UInt8) : Option (Option (List UInt8)) := do
  match ← env.find name with
  | none => some none
  | some e =>
      let stop ← env.toEquals e
      let value := if env.block.get stop = 61 then stop + 1 else stop
      some (some (env.block.slice value ((← env.toEnd value) - value)))

/-- Bytes copied to a place in the block; `none` for a write outside. -/
def write (env : Env) (pos : Nat) (bytes : List UInt8) : Option Env :=
  if pos + bytes.length ≤ envBlockSize then
    some { env with block := env.block.blit pos bytes }
  else none

/-- The entry at a position compacted out.  The rest is copied downwards byte by byte, from
places that are not written before they are read. -/
def compact (env : Env) (e : Nat) : Option Env := do
  let next := (← env.toEnd e) + 1
  let rem := env.used - e - (next - e)
  if next + rem ≤ envBlockSize then do
    let moved ← env.write e (env.block.slice next rem)
    some { moved with used := env.used - (next - e) }
  else none

/-- `env_set`, with its result. -/
def set (env : Env) (name value : List UInt8) : Option (Bool × Env) := do
  let env ← match ← env.find name with
    | some e => env.compact e
    | none => some env
  let newTotal := name.length + 1 + value.length + 1
  if envBlockSize ≤ env.used + newTotal then some (false, env)
  else do
    let stored ← env.write env.used (name ++ 61 :: value ++ [0])
    some (true, { stored with used := env.used + newTotal })

end Env

end Block

section Entries

/-- A variable of the environment. -/
structure EnvEntry where
  name : List UInt8
  value : List UInt8

/-- Names that are the same but for the case of letters. -/
def SameName (a b : List UInt8) : Prop := a.map toUpper = b.map toUpper

instance (a b : List UInt8) : Decidable (SameName a b) := inferInstanceAs (Decidable (_ = _))

/-- The bytes of an entry in the block. -/
def EnvEntry.bytes (e : EnvEntry) : List UInt8 := e.name ++ 61 :: e.value ++ [0]

/-- Names and values that the block can hold. -/
structure EnvEntry.Plain (e : EnvEntry) : Prop where
  name : ∀ c ∈ e.name, c ≠ 0 ∧ c ≠ 61
  value : ∀ c ∈ e.value, c ≠ 0

/-- The first variable with the name. -/
def lookup (entries : List EnvEntry) (name : List UInt8) : Option (List UInt8) :=
  (entries.find? fun e => SameName e.name name).map EnvEntry.value

/-- The block holds these variables one behind the other, each name once. -/
structure Env.Holds (env : Env) (entries : List EnvEntry) : Prop where
  used : env.used = (entries.flatMap EnvEntry.bytes).length
  inside : env.used < envBlockSize
  bytes : env.block.slice 0 env.used = entries.flatMap EnvEntry.bytes
  plain : ∀ e ∈ entries, e.Plain
  once : entries.Pairwise fun e e' => ¬ SameName e.name e'.name

end Entries

section Scans

variable {env : Env} {pos : Nat} {front rest bytes : List UInt8} {c : UInt8}

/-- The bytes of the block at a position. -/
def Env.At (env : Env) (pos : Nat) (bytes : List UInt8) : Prop :=
  env.block.slice pos bytes.length = bytes ∧ pos + bytes.length ≤ envBlockSize

theorem Env.at_append : env.At pos (front ++ rest) ↔
    env.At pos front ∧ env.At (pos + front.length) rest := by
  unfold Env.At
  rw [List.length_append, Buffer.slice_add]
  constructor
  · rintro ⟨same, inside⟩
    obtain ⟨first, second⟩ := List.append_inj same (by simp [Buffer.slice])
    exact ⟨⟨first, by omega⟩, second, by omega⟩
  · rintro ⟨⟨first, -⟩, second, inside⟩
    exact ⟨by rw [first, second], by omega⟩

theorem Env.At.head (place : env.At pos (c :: rest)) : env.block.get pos = c := by
  have same := place.1
  rw [List.length_cons, Nat.add_comm, Buffer.slice_add] at same
  simpa [Buffer.slice] using congrArg List.head? same

/-- A scan passes the bytes before the one that it stops at. -/
theorem Env.scanBlock_at {p : UInt8 → Bool} (place : env.At pos (front ++ c :: rest))
    (passes : ∀ x ∈ front, p x = true) (stops : p c = false) :
    Env.scanBlock env.block p (envBlockSize - pos) pos = some (pos + front.length) := by
  induction front generalizing pos with
  | nil =>
      have inside := place.2
      obtain ⟨left, more⟩ : ∃ left, envBlockSize - pos = left + 1 :=
        ⟨envBlockSize - pos - 1, by simp at inside; omega⟩
      rw [more, Env.scanBlock, place.head, stops]
      rfl
  | cons x front ih =>
      have inside := place.2
      obtain ⟨left, more⟩ : ∃ left, envBlockSize - pos = left + 1 :=
        ⟨envBlockSize - pos - 1, by simp at inside; omega⟩
      have next : env.At (pos + 1) (front ++ c :: rest) := (Env.at_append.mp
        (show env.At pos ([x] ++ (front ++ c :: rest)) from place)).2
      have first : env.block.get pos = x :=
        (show env.At pos (x :: (front ++ c :: rest)) from place).head
      have left_eq : envBlockSize - (pos + 1) = left := by omega
      rw [more, Env.scanBlock, first, passes x List.mem_cons_self, if_pos rfl, ← left_eq,
        ih next fun y mem => passes y (List.mem_cons_of_mem _ mem), List.length_cons]
      congr 1
      omega

end Scans

section Lookups

variable {env : Env} {entries rest : List EnvEntry} {name value : List UInt8} {i left : Nat}

theorem toUpper_eq_zero {c : UInt8} : toUpper c = 0 ↔ c = 0 := by
  unfold toUpper
  split
  · rename_i letter
    have := UInt8.le_iff_toNat_le.mp letter.1
    have := UInt8.le_iff_toNat_le.mp letter.2
    constructor
    · intro zero
      have value : (c - 32).toNat = 0 := by rw [zero]; rfl
      rw [UInt8.toNat_sub_of_le _ _ (UInt8.le_iff_toNat_le.mpr (by simp at *; omega))] at value
      simp at *
      omega
    · rintro rfl
      exact absurd letter.1 (by decide)
  · rfl

/-- The comparison without regard to case. -/
theorem strieqn_iff {a b : List UInt8} (length : a.length = b.length) (plain : ∀ c ∈ a, c ≠ 0) :
    strieqn a.length a b = true ↔ SameName a b := by
  unfold SameName
  induction a generalizing b with
  | nil =>
      cases b with
      | nil => simp [strieqn]
      | cons c b => simp at length
  | cons c a ih =>
      cases b with
      | nil => simp at length
      | cons c' b =>
          have nonzero : toUpper c ≠ 0 := fun zero =>
            plain c List.mem_cons_self (toUpper_eq_zero.mp zero)
          have rest := ih (by simpa using length) fun x mem => plain x (List.mem_cons_of_mem _ mem)
          simp only [List.length_cons, strieqn, List.headD_cons, List.tail_cons, List.map_cons,
            List.cons.injEq]
          by_cases same : toUpper c = toUpper c'
          · rw [same] at nonzero
            simp [same, nonzero, rest]
          · by_cases zero : toUpper c' = 0
            · simp [zero, nonzero]
            · simp [same, nonzero, zero]

theorem EnvEntry.length_bytes (e : EnvEntry) :
    e.bytes.length = e.name.length + e.value.length + 2 := by
  simp [EnvEntry.bytes]
  omega

/-- An entry in the block: its name up to the equals sign, its value up to the NUL. -/
structure EntryAt (env : Env) (i : Nat) (e : EnvEntry) : Prop where
  name : env.block.slice i e.name.length = e.name
  equals : env.toEquals i = some (i + e.name.length)
  sign : env.block.get (i + e.name.length) = 61
  ends : env.toEnd i = some (i + e.name.length + 1 + e.value.length)
  value : env.block.slice (i + e.name.length + 1) e.value.length = e.value
  valueEnds : env.toEnd (i + e.name.length + 1) = some (i + e.name.length + 1 + e.value.length)

theorem entryAt {e : EnvEntry} (plain : e.Plain) (place : env.At i e.bytes) : EntryAt env i e := by
  have whole : e.bytes = (e.name ++ [61] ++ e.value) ++ [0] := by simp [EnvEntry.bytes]
  have split : e.bytes = e.name ++ 61 :: (e.value ++ [0]) := by simp [EnvEntry.bytes]
  obtain ⟨name, rest⟩ := Env.at_append.mp (split ▸ place)
  obtain ⟨sign, value⟩ := Env.at_append.mp
    (show env.At (i + e.name.length) ([61] ++ (e.value ++ [0])) from rest)
  have nonzero : ∀ c ∈ e.name ++ [61] ++ e.value, (decide (c ≠ 0)) = true := by
    intro c mem
    simp only [List.append_assoc, List.cons_append, List.nil_append, List.mem_append,
      List.mem_cons] at mem
    rcases mem with mem | rfl | mem
    · simpa using (plain.name c mem).1
    · rfl
    · simpa using plain.value c mem
  refine ⟨name.1, ?_, rest.head, ?_, ?_, ?_⟩
  · apply Env.scanBlock_at (split ▸ place)
    · intro c mem
      simp [plain.name c mem]
    · rfl
  · rw [Env.toEnd, Env.scanBlock_at (whole ▸ place) nonzero (by rfl)]
    simp
    omega
  · exact (Env.at_append.mp value).1.1
  · apply Env.scanBlock_at (show env.At (i + e.name.length + 1) (e.value ++ [0]) from value)
    · intro c mem
      simpa using plain.value c mem
    · rfl

/-- Where the first entry with the name begins. -/
def offsetOf (name : List UInt8) : List EnvEntry → Nat → Option Nat
  | [], _ => none
  | e :: rest, i => if SameName e.name name then some i else offsetOf name rest (i + e.bytes.length)

theorem findFrom_at (plain : ∀ e ∈ rest, e.Plain) (place : env.At i (rest.flatMap EnvEntry.bytes))
    (used : env.used = i + (rest.flatMap EnvEntry.bytes).length) (enough : rest.length ≤ left) :
    env.findFrom name left i = some (offsetOf name rest i) := by
  induction rest generalizing i left with
  | nil =>
      cases left with
      | zero => rfl
      | succ left =>
          rw [Env.findFrom, if_neg (by simp [used])]
          rfl
  | cons e rest ih =>
      obtain ⟨left, rfl⟩ : ∃ less, left = less + 1 := ⟨left - 1, by simp at enough; omega⟩
      rw [List.flatMap_cons] at place used
      obtain ⟨first, others⟩ := Env.at_append.mp place
      have here := entryAt (plain e List.mem_cons_self) first
      have length := e.length_bytes
      rw [List.length_append] at used
      rw [Env.findFrom, if_pos (by omega), here.equals, Option.bind_eq_bind, Option.bind_some,
        here.sign, Nat.add_sub_cancel_left, offsetOf]
      by_cases same : SameName e.name name
      · have lengths : e.name.length = name.length := by
          simpa using congrArg List.length same
        have equal : strieqn name.length (env.block.slice i name.length) name = true := by
          rw [← lengths, here.name, strieqn_iff lengths fun c mem =>
            ((plain e List.mem_cons_self).name c mem).1]
          exact same
        rw [if_pos ⟨lengths, equal, rfl⟩, if_pos same]
      · have differ : ¬ (e.name.length = name.length ∧
            strieqn name.length (env.block.slice i name.length) name ∧ (61 : UInt8) = 61) := by
          rintro ⟨lengths, equal, -⟩
          rw [← lengths, here.name, strieqn_iff lengths fun c mem =>
            ((plain e List.mem_cons_self).name c mem).1] at equal
          exact same equal
        rw [if_neg differ, if_neg same, here.ends, Option.bind_some]
        have next : i + e.name.length + 1 + e.value.length + 1 = i + e.bytes.length := by omega
        rw [next]
        exact ih (fun e mem => plain e (List.mem_cons_of_mem _ mem)) others (by omega)
          (by simp at enough; omega)

/-- The variables but the one with the name. -/
def others (entries : List EnvEntry) (name : List UInt8) : List EnvEntry :=
  entries.filter fun e => ¬ SameName e.name name

theorem offsetOf_cases (name : List UInt8) (entries : List EnvEntry) (i : Nat) :
    (offsetOf name entries i = none ∧ ∀ e ∈ entries, ¬ SameName e.name name) ∨
      ∃ before e after, entries = before ++ e :: after ∧ SameName e.name name ∧
        (∀ e ∈ before, ¬ SameName e.name name) ∧
        offsetOf name entries i = some (i + (before.flatMap EnvEntry.bytes).length) := by
  induction entries generalizing i with
  | nil => exact Or.inl ⟨rfl, nofun⟩
  | cons e entries ih =>
      rw [offsetOf]
      by_cases same : SameName e.name name
      · right
        exact ⟨[], e, entries, rfl, same, nofun, by simp [same]⟩
      · rw [if_neg same]
        rcases ih (i + e.bytes.length) with ⟨absent, differ⟩ | ⟨before, e', after, rfl, found⟩
        · left
          refine ⟨absent, ?_⟩
          simpa [same] using differ
        · right
          obtain ⟨same', differ, offset⟩ := found
          refine ⟨e :: before, e', after, rfl, same', by simpa [same] using differ, ?_⟩
          rw [offset, List.flatMap_cons, List.length_append, Nat.add_assoc]

theorem length_le_bytes (entries : List EnvEntry) :
    entries.length ≤ (entries.flatMap EnvEntry.bytes).length := by
  induction entries with
  | nil => simp
  | cons e entries ih =>
      have length := e.length_bytes
      rw [List.flatMap_cons, List.length_append, List.length_cons]
      omega

theorem Env.Holds.at (holds : env.Holds entries) : env.At 0 (entries.flatMap EnvEntry.bytes) := by
  have inside := holds.inside
  rw [holds.used] at inside
  refine ⟨?_, by omega⟩
  rw [← holds.used]
  exact holds.bytes

theorem Env.Holds.find (holds : env.Holds entries) (name : List UInt8) :
    env.find name = some (offsetOf name entries 0) := by
  apply findFrom_at holds.plain holds.at
  · rw [Nat.zero_add, holds.used]
  · rw [holds.used]
    exact length_le_bytes entries

theorem lookup_none (differ : ∀ e ∈ entries, ¬ SameName e.name name) :
    lookup entries name = none := by
  rw [lookup, List.find?_eq_none.mpr (by simpa using differ)]
  rfl

theorem lookup_split {before after : List EnvEntry} {e : EnvEntry} (same : SameName e.name name)
    (differ : ∀ e ∈ before, ¬ SameName e.name name) :
    lookup (before ++ e :: after) name = some e.value := by
  rw [lookup, List.find?_append, List.find?_eq_none.mpr (by simpa using differ)]
  simp [same]

/-- `env_get` looks the name up. -/
theorem Env.Holds.get (holds : env.Holds entries) (name : List UInt8) :
    env.get name = some (lookup entries name) := by
  rw [Env.get, holds.find]
  rcases offsetOf_cases name entries 0 with ⟨absent, differ⟩ |
    ⟨before, e, after, rfl, same, differ, offset⟩
  · rw [absent, lookup_none differ]
    rfl
  · have place := holds.at
    rw [List.flatMap_append, List.flatMap_cons] at place
    have here := entryAt (holds.plain e (by simp))
      (Env.at_append.mp (Env.at_append.mp place).2).1
    rw [offset, lookup_split same differ]
    simp only [Option.bind_eq_bind, Option.bind_some, here.equals, here.sign, if_true,
      here.valueEnds, Nat.add_sub_cancel_left, here.value]

end Lookups

section Settings

variable {env : Env} {entries : List EnvEntry} {name value : List UInt8}

theorem others_split {before after : List EnvEntry} {e : EnvEntry} (same : SameName e.name name)
    (differ : ∀ e ∈ before, ¬ SameName e.name name)
    (once : (before ++ e :: after).Pairwise fun e e' => ¬ SameName e.name e'.name) :
    others (before ++ e :: after) name = before ++ after := by
  have behind : ∀ e' ∈ after, ¬ SameName e'.name name := by
    intro e' mem same'
    have pair := (List.pairwise_cons.mp (List.pairwise_append.mp once).2.1).1 e' mem
    exact pair (same.trans same'.symm)
  rw [others, List.filter_append, List.filter_cons_of_neg (by simpa using same),
    List.filter_eq_self.mpr (by simpa using differ),
    List.filter_eq_self.mpr (by simpa using behind)]

theorem lookup_others {other : List UInt8} (differ : ¬ SameName other name) :
    lookup (others entries name) other = lookup entries other := by
  rw [lookup, lookup, others, List.find?_filter]
  congr 2
  funext e
  by_cases same : SameName e.name other
  · have : ¬ SameName e.name name := fun same' => differ (same.symm.trans same')
    simp [same, this]
  · simp [same]

theorem lookup_congr {other : List UInt8} (same : SameName other name) :
    lookup entries other = lookup entries name := by
  have tests : (fun e : EnvEntry => decide (SameName e.name other)) =
      fun e => decide (SameName e.name name) := by
    funext e
    exact decide_eq_decide.mpr ⟨fun first => first.trans same, fun first => first.trans same.symm⟩
  rw [lookup, lookup, tests]

theorem lookup_others_self {other : List UInt8} (same : SameName other name) :
    lookup (others entries name) other = none := by
  apply lookup_none
  intro e mem same'
  have differ := (List.mem_filter.mp mem).2
  simp only [decide_not, Bool.not_eq_eq_eq_not, Bool.not_true, decide_eq_false_iff_not] at differ
  exact differ (same'.trans same)

theorem lookup_appended (e : EnvEntry) (other : List UInt8) :
    lookup (others entries e.name ++ [e]) other =
      if SameName other e.name then some e.value else lookup entries other := by
  by_cases same : SameName other e.name
  · have none : lookup (others entries e.name) other = none := lookup_others_self same
    rw [lookup, Option.map_eq_none_iff] at none
    rw [lookup, List.find?_append, none, if_pos same]
    simp [show SameName e.name other from same.symm]
  · have kept : lookup (others entries e.name) other = lookup entries other := lookup_others same
    rw [if_neg same, ← kept, lookup, lookup, List.find?_append]
    have differ : ¬ SameName e.name other := fun same' => same same'.symm
    simp [differ]

/-- There is room for the variable beside the others. -/
def Fits (entries : List EnvEntry) (e : EnvEntry) : Prop :=
  ((others entries e.name).flatMap EnvEntry.bytes).length + e.bytes.length < envBlockSize

instance (entries : List EnvEntry) (e : EnvEntry) : Decidable (Fits entries e) :=
  inferInstanceAs (Decidable (_ < _))

/-- The entry that is replaced has been compacted out. -/
theorem Env.Holds.compact {before after : List EnvEntry} {e : EnvEntry}
    (holds : env.Holds (before ++ e :: after)) :
    ∃ env', env.compact (before.flatMap EnvEntry.bytes).length = some env' ∧
      env'.Holds (before ++ after) := by
  have place := holds.at
  have used := holds.used
  have inside := holds.inside
  rw [List.flatMap_append, List.flatMap_cons] at place used
  obtain ⟨first, place⟩ := Env.at_append.mp place
  rw [Nat.zero_add] at place
  obtain ⟨here, last⟩ := Env.at_append.mp place
  have entry := entryAt (holds.plain e (by simp)) here
  have length := e.length_bytes
  rw [List.length_append, List.length_append] at used
  generalize start : (before.flatMap EnvEntry.bytes).length = pos at *
  have next : pos + e.name.length + 1 + e.value.length + 1 = pos + e.bytes.length := by omega
  have rem : env.used - pos - e.bytes.length = (after.flatMap EnvEntry.bytes).length := by omega
  have fits : pos + (after.flatMap EnvEntry.bytes).length ≤ envBlockSize := by omega
  refine ⟨{ block := env.block.blit pos (after.flatMap EnvEntry.bytes)
            used := env.used - e.bytes.length }, ?_, ?_, ?_, ?_, ?_, ?_⟩
  · rw [Env.compact, entry.ends]
    simp only [Option.bind_eq_bind, Option.bind_some]
    rw [next, Nat.add_sub_cancel_left, rem, if_pos (by omega), last.1, Env.write, if_pos fits]
    rfl
  · rw [List.flatMap_append, List.length_append]
    dsimp only
    omega
  · dsimp only
    omega
  · dsimp only
    have split : env.used - e.bytes.length = pos + (after.flatMap EnvEntry.bytes).length := by omega
    rw [split, Buffer.slice_add, Nat.zero_add, Buffer.slice_blit_self _ _ _ fits,
      Buffer.slice_blit_of_disjoint _ (Or.inl (by omega)), List.flatMap_append, ← first.1, start]
  · intro e' mem
    apply holds.plain
    simp only [List.mem_append, List.mem_cons] at mem ⊢
    exact mem.imp_right Or.inr
  · have sublist : (before ++ after).Sublist (before ++ e :: after) :=
      (List.Sublist.refl before).append (List.sublist_cons_self e after)
    exact holds.once.sublist sublist

theorem Env.Holds.append {e : EnvEntry} (holds : env.Holds entries) (plain : e.Plain)
    (fresh : ∀ e' ∈ entries, ¬ SameName e'.name e.name)
    (room : env.used + e.bytes.length < envBlockSize) :
    ∃ env', env.write env.used e.bytes = some env' ∧
      ({ env' with used := env.used + e.bytes.length } : Env).Holds (entries ++ [e]) := by
  have used := holds.used
  have fits : env.used + e.bytes.length ≤ envBlockSize := room.le
  refine ⟨{ env with block := env.block.blit env.used e.bytes }, if_pos fits, ?_, room, ?_, ?_, ?_⟩
  · simp [used]
  · dsimp only
    rw [Buffer.slice_add, Nat.zero_add, Buffer.slice_blit_self _ _ _ fits,
      Buffer.slice_blit_of_disjoint _ (Or.inl (by omega)), holds.bytes]
    simp
  · intro e' mem
    rcases List.mem_append.mp mem with mem | mem
    · exact holds.plain e' mem
    · rwa [List.mem_singleton.mp mem]
  · rw [List.pairwise_append]
    refine ⟨holds.once, List.pairwise_singleton _ _, ?_⟩
    intro e' mem e'' last
    rw [List.mem_singleton.mp last]
    exact fresh e' mem

/-- `env_set` removes the variable of the name, and adds the new one when it fits. -/
theorem Env.Holds.set {e : EnvEntry} (holds : env.Holds entries) (plain : e.Plain) :
    ∃ env', env.set e.name e.value = some (decide (Fits entries e), env') ∧
      env'.Holds (if Fits entries e then others entries e.name ++ [e]
        else others entries e.name) := by
  obtain ⟨env₁, removed, left⟩ : ∃ env₁, (do
      match ← env.find e.name with
      | some pos => env.compact pos
      | none => some env : Option Env) = some env₁ ∧ env₁.Holds (others entries e.name) := by
    rw [holds.find]
    rcases offsetOf_cases e.name entries 0 with ⟨absent, differ⟩ |
      ⟨before, e', after, rfl, same, differ, offset⟩
    · rw [absent, others, List.filter_eq_self.mpr (by simpa using differ)]
      exact ⟨env, rfl, holds⟩
    · rw [offset, Nat.zero_add, others_split same differ holds.once]
      exact holds.compact
  have used := left.used
  have length := e.length_bytes
  have total : e.name.length + 1 + e.value.length + 1 = e.bytes.length := by omega
  have start : env.set e.name e.value =
      (if envBlockSize ≤ env₁.used + e.bytes.length then some (false, env₁)
      else do
        let stored ← env₁.write env₁.used e.bytes
        some (true, { stored with used := env₁.used + e.bytes.length })) := by
    rw [holds.find] at removed
    rw [Env.set, total, holds.find]
    simp only [Option.bind_eq_bind, Option.bind_some] at removed ⊢
    cases place : offsetOf e.name entries 0 with
    | none =>
        rw [place] at removed
        obtain rfl := Option.some.inj removed
        rfl
    | some pos =>
        rw [place] at removed
        change (env.compact pos).bind _ = _
        rw [show env.compact pos = some env₁ from removed]
        rfl
  by_cases fits : Fits entries e
  · have room : env₁.used + e.bytes.length < envBlockSize := by rwa [used]
    have fresh : ∀ e' ∈ others entries e.name, ¬ SameName e'.name e.name := by
      intro e' mem
      simpa using (List.mem_filter.mp mem).2
    obtain ⟨env', stored, holds'⟩ := left.append plain fresh room
    rw [start, if_neg (Nat.not_le.mpr room), stored, if_pos fits, decide_eq_true fits]
    exact ⟨_, rfl, holds'⟩
  · have full : envBlockSize ≤ env₁.used + e.bytes.length := by
      rw [used]
      exact Nat.not_lt.mp fits
    rw [start, if_pos full, if_neg fits, decide_eq_false fits]
    exact ⟨env₁, rfl, left⟩

end Settings

section Law

/-- The environments that settings of plain names and values lead to. -/
inductive Env.Reached : Env → Prop
  | empty : Reached Env.empty
  | set {env env' : Env} {name value : List UInt8} {ok : Bool} (reached : Reached env)
      (plain : EnvEntry.Plain { name, value }) (run : env.set name value = some (ok, env')) :
      Reached env'

/-- What a setting has to do: no access leaves the block, a setting that succeeds changes the
variable of this name only, and one that fails changes none. -/
def Env.SetMeets (env : Env) (name value : List UInt8) : Prop :=
  ∃ ok env', env.set name value = some (ok, env') ∧
    (∀ other, env.get other ≠ none ∧ env'.get other ≠ none) ∧
    (ok = true → env'.get name = some (some value) ∧
      ∀ other, ¬ SameName other name → env'.get other = env.get other) ∧
    (ok = false → ∀ other, env'.get other = env.get other)

/-- A variable of this name is set, and the new value has no room even in its place. -/
def Env.Evicts (env : Env) (name value : List UInt8) : Prop :=
  ∃ old, env.get name = some (some old) ∧ envBlockSize + old.length ≤ env.used + value.length

variable {env : Env} {name value : List UInt8} {entries : List EnvEntry}

theorem Env.Reached.holds (reached : env.Reached) : ∃ entries, env.Holds entries := by
  induction reached with
  | empty => exact ⟨[], rfl, by decide, rfl, nofun, List.Pairwise.nil⟩
  | @set env env' name value ok reached plain run ih =>
      obtain ⟨entries, holds⟩ := ih
      obtain ⟨env₁, run₁, holds₁⟩ := holds.set plain
      obtain ⟨-, rfl⟩ := Prod.mk.inj (Option.some.inj (run₁.symm.trans run))
      exact ⟨_, holds₁⟩

/-- How much room the variables take besides the one of the name. -/
theorem length_others (once : entries.Pairwise fun e e' => ¬ SameName e.name e'.name)
    (name : List UInt8) :
    (entries.flatMap EnvEntry.bytes).length =
      ((others entries name).flatMap EnvEntry.bytes).length +
      match lookup entries name with
      | none => 0
      | some old => name.length + old.length + 2 := by
  rcases offsetOf_cases name entries 0 with ⟨-, differ⟩ | ⟨before, e, after, rfl, same, differ, -⟩
  · rw [lookup_none differ, others, List.filter_eq_self.mpr (by simpa using differ)]
    rfl
  · have length := e.length_bytes
    have names : e.name.length = name.length := by simpa using congrArg List.length same
    rw [lookup_split same differ, others_split same differ once]
    simp only [List.flatMap_append, List.flatMap_cons, List.length_append]
    omega

theorem Env.Holds.evicts_iff {e : EnvEntry} (holds : env.Holds entries) :
    env.Evicts e.name e.value ↔ lookup entries e.name ≠ none ∧ ¬ Fits entries e := by
  have total := length_others holds.once e.name
  have used := holds.used
  have length := e.length_bytes
  unfold Env.Evicts Fits
  rw [holds.get]
  cases found : lookup entries e.name with
  | none => simp
  | some old =>
      rw [found] at total
      change _ = _ + (e.name.length + old.length + 2) at total
      simp only [Option.some.injEq, exists_eq_left', ne_eq, reduceCtorEq, not_false_eq_true,
        true_and, not_lt]
      omega

/-- In every environment that is reached a setting meets the law exactly when it does not fail
for want of room after it has removed the old value. -/
theorem setMeets_iff (reached : env.Reached) (plain : EnvEntry.Plain { name, value }) :
    env.SetMeets name value ↔ ¬ env.Evicts name value := by
  obtain ⟨entries, holds⟩ := reached.holds
  obtain ⟨env', run, holds'⟩ := holds.set plain
  have before (other : List UInt8) := holds.get other
  have after (other : List UInt8) := holds'.get other
  rw [holds.evicts_iff (e := { name, value })]
  by_cases fits : Fits entries { name, value }
  · rw [decide_eq_true fits] at run
    rw [if_pos fits] at after
    refine iff_of_true ⟨true, env', run, fun other => ?_, fun _ => ⟨?_, ?_⟩, nofun⟩ (by simp [fits])
    · simp [before, after]
    · rw [after, lookup_appended, if_pos (show SameName name name from rfl)]
    · intro other differ
      rw [after, before, lookup_appended, if_neg differ]
  · rw [decide_eq_false fits] at run
    rw [if_neg fits] at after
    have removed : env'.get name = some none := by
      rw [after, lookup_others_self rfl]
    constructor
    · rintro ⟨ok, env₁, run₁, -, -, kept⟩ ⟨set, -⟩
      obtain ⟨rfl, rfl⟩ := Prod.mk.inj (Option.some.inj (run.symm.trans run₁))
      have same := kept rfl name
      rw [removed, before] at same
      exact set (Option.some.inj same).symm
    · intro notEvicted
      have absent : lookup entries name = none := by
        by_contra set
        exact notEvicted ⟨set, fits⟩
      refine ⟨false, env', run, fun other => ?_, nofun, fun _ other => ?_⟩
      · simp [before, after]
      · by_cases same : SameName other name
        · rw [after, before, lookup_others_self same, lookup_congr same, absent]
        · rw [after, before, lookup_others same]

theorem setMeets_iff_fresh : Env.empty.SetMeets [65] [120] ↔ ¬ Env.empty.Evicts [65] [120] :=
  setMeets_iff .empty ⟨by simp, by simp⟩

/-- A setting that fails for want of room has removed the value that it was to replace. -/
theorem failed_setting_removes :
    ∃ env env' : Env, env.Reached ∧
      EnvEntry.Plain { name := [66], value := List.replicate 60 122 } ∧
      env.get [66] = some (some [121]) ∧ env.set [66] (List.replicate 60 122) = some (false, env') ∧
      env'.get [66] = some none := by
  have run : (Env.empty.set [65] (List.replicate 200 120)).bind (fun r =>
      (r.2.set [66] [121]).bind fun r' => (r'.2.set [66] (List.replicate 60 122)).map fun r'' =>
        ((r.1, r'.1, r''.1), r'.2.get [66], r''.2.get [66])) =
      some ((true, true, false), some (some [121]), some none) := by
    decide +kernel
  obtain ⟨⟨ok, env₁⟩, run₁, rest⟩ := Option.bind_eq_some_iff.mp run
  obtain ⟨⟨ok', env₂⟩, run₂, rest⟩ := Option.bind_eq_some_iff.mp rest
  obtain ⟨⟨ok'', env₃⟩, run₃, same⟩ := Option.map_eq_some_iff.mp rest
  simp only [Prod.mk.injEq] at same
  obtain ⟨⟨rfl, rfl, rfl⟩, before, after⟩ := same
  have first : EnvEntry.Plain { name := [65], value := List.replicate 200 120 } :=
    ⟨by simp, fun c mem => List.eq_of_mem_replicate mem ▸ by decide⟩
  have reached : env₂.Reached := .set (.set .empty first run₁) ⟨by simp, by simp⟩ run₂
  have second : EnvEntry.Plain { name := [66], value := List.replicate 60 122 } :=
    ⟨by simp, fun c mem => List.eq_of_mem_replicate mem ▸ by decide⟩
  exact ⟨env₂, env₃, reached, second, before, run₃, after⟩

end Law

end Ncd15.Xcpm
