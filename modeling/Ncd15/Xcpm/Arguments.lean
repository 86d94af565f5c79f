import Ncd15.Xcpm.Environment
import Ncd15.Xcpm.WindowTenants

/-!
# The arguments of a command line

The loop of `run_line` that packs tokens, values of variables and names that match a wildcard
into the buffer `expanded`.  Names are cut at the end of the buffer, and the NUL behind a name
that is cut is the last byte of the buffer, which is never anything else.
-/

namespace Ncd15.Xcpm

open Ncd15.Library

section Tokens

/-- Where `next_token` stands in a token. -/
inductive Quoting
  | plain
  | double
  | escape
  | single

/-- An escape between double quotes. -/
def unescape (c : UInt8) : UInt8 :=
  if c = 110 then 10 else if c = 114 then 13 else if c = 116 then 9 else c

/-- The loop of `next_token`: the token and the rest of the line.  The token is stored over
what has been read of it. -/
def scanToken : Quoting → List UInt8 → List UInt8 → List UInt8 × List UInt8
  | _, [], out => (out, [])
  | .plain, c :: rest, out =>
      if isSpace c then (out, rest)
      else if c = 34 then scanToken .double rest out
      else if c = 39 then scanToken .single rest out
      else scanToken .plain rest (out ++ [c])
  | .double, c :: rest, out =>
      if c = 34 then scanToken .plain rest out
      else if c = 92 ∧ rest ≠ [] then scanToken .escape rest out
      else scanToken .double rest (out ++ [c])
  | .escape, c :: rest, out => scanToken .double rest (out ++ [unescape c])
  | .single, c :: rest, out =>
      if c = 39 then scanToken .plain rest out else scanToken .single rest (out ++ [c])

/-- `next_token`. -/
def nextToken (line : List UInt8) : Option (List UInt8 × List UInt8) :=
  match line.dropWhile isSpace with
  | [] => none
  | line => some (scanToken .plain line [])

def isNameStart (c : UInt8) : Bool := 97 ≤ c && c ≤ 122 || 65 ≤ c && c ≤ 90 || c = 95

def isNameChar (c : UInt8) : Bool := isNameStart c || 48 ≤ c && c ≤ 57

/-- The value of a variable behind what `out` holds already. -/
def appendValue (env : Env) (name out : List UInt8) : Option (List UInt8) :=
  (env.get name).map fun value => out ++ (value.getD []).take (ccpLineMax - 1 - out.length)

/-- The loop of `expand_token`; each round reads a character at least. -/
def expandLoop (env : Env) : Nat → List UInt8 → List UInt8 → Option (List UInt8)
  | 0, _, out => some out
  | _ + 1, [], out => some out
  | rounds + 1, c :: rest, out =>
      if out.length < ccpLineMax - 1 then
        let word := rest.takeWhile isNameChar
        if c = 36 ∧ isNameStart (rest.headD 0) then do
          let name := word.take 31
          expandLoop env rounds (rest.drop name.length) (← appendValue env name out)
        else if c = 37 ∧ word ≠ [] ∧ (rest.drop word.length).head? = some 37 then do
          expandLoop env rounds (rest.drop (word.length + 1))
            (← appendValue env (word.take 31) out)
        else expandLoop env rounds rest (out ++ [c])
      else some out

/-- `expand_token` into `tmp`, whose contents have a NUL behind them. -/
def expandToken (env : Env) (tok : List UInt8) : Option (List UInt8) :=
  expandLoop env tok.length tok []

/-- `has_wildcard`. -/
def hasWildcard (s : List UInt8) : Bool := s.any fun c => c = 42 || c = 63

/-- One part of `glob_pattern_to_11`, with the room left in it, and whether a wildcard was
seen. -/
def globPart (stop : UInt8 → Bool) : Nat → List UInt8 → List UInt8 × Bool
  | 0, _ => ([], false)
  | room, [] => (List.replicate room 32, false)
  | room + 1, c :: rest =>
      if stop c then (List.replicate (room + 1) 32, false)
      else if c = 42 then (List.replicate (room + 1) 63, true)
      else
        let part := globPart stop room rest
        (toUpper c :: part.1, part.2 || c = 63)

/-- `glob_pattern_to_11`. -/
def globPattern (pat : List UInt8) : List UInt8 × Bool :=
  let base := globPart (· = 46) 8 pat
  let ext := globPart (fun _ => false) 3 ((pat.dropWhile (· ≠ 46)).drop 1)
  (base.1 ++ ext.1, base.2 || ext.2)

end Tokens

section Expansion

/-- `sizeof expanded`. -/
abbrev expandedSize : Nat := ccpLineMax * 4

/-- `expanded`, the pointers in `argv` as offsets into it, and `eoff`. -/
structure Expansion where
  expanded : Watched expandedSize
  argv : List Nat
  eoff : Nat

/-- The string at an offset, up to its NUL. -/
def textAt (buf : Buffer expandedSize) (off : Nat) : List UInt8 :=
  (buf.slice off (expandedSize - off)).takeWhile (· ≠ 0)

/-- A string copied as the next argument. -/
def Expansion.copyArg (e : Expansion) (tmp : List UInt8) : Expansion :=
  let text := tmp.take (expandedSize - 1 - e.eoff)
  { expanded := (e.expanded.copyIn e.eoff text).store (e.eoff + text.length) 0
    argv := e.argv ++ [e.eoff]
    eoff := e.eoff + text.length + 1 }

/-- `expanded` while `glob_expand` writes to the part of it from `base` on, with `boff + n` and
the pointers so far. -/
structure Globbing where
  expanded : Watched expandedSize
  fill : Nat
  matched : List Nat

/-- `if (boff + n < out_buf_size - 1) dst[n++] = c`. -/
def Globbing.put (base : Nat) (g : Globbing) (c : UInt8) : Globbing :=
  if g.fill < expandedSize - base - 1 then
    { g with expanded := g.expanded.store (base + g.fill) c, fill := g.fill + 1 }
  else g

/-- One match of `glob_expand`. -/
def Globbing.name (base : Nat) (g : Globbing) (raw : List UInt8) : Globbing :=
  let stored := (recordName raw ++ [0]).foldl (Globbing.put base) g
  { stored with matched := g.matched ++ [base + g.fill] }

/-- The names behind each other, as many as there is room for in `argv`; `search` is what BDOS
17 and 18 deliver. -/
def Expansion.globNames (search : List UInt8 → List (List UInt8)) (e : Expansion)
    (pat : List UInt8) : Globbing :=
  ((search (globPattern pat).1).take (16 - e.argv.length)).foldl (Globbing.name e.eoff)
    { expanded := e.expanded, fill := 0, matched := [] }

/-- A token with a wildcard: the matches of `glob_expand`, or the token itself. -/
def Expansion.globArgs (search : List UInt8 → List (List UInt8)) (e : Expansion)
    (tmp : List UInt8) : Expansion :=
  if (globPattern tmp).2 then
    let g := e.globNames search tmp
    match g.matched.getLast? with
    | none => e.copyArg tmp
    | some last =>
        { expanded := g.expanded
          argv := e.argv ++ g.matched
          eoff := last + (textAt g.expanded.buf last).length + 1 }
  else e.copyArg tmp

/-- One round of the loop in `run_line`; `none` for a store behind `tmp`. -/
def Expansion.token (env : Env) (search : List UInt8 → List (List UInt8)) (e : Expansion)
    (t : List UInt8) : Option Expansion := do
  let tmp ← expandToken env t
  if tmp.length < ccpLineMax then
    some (if e.argv ≠ [] ∧ hasWildcard tmp then e.globArgs search tmp else e.copyArg tmp)
  else none

/-- The loop in `run_line`; each round adds an argument. -/
def expandLine (env : Env) (search : List UInt8 → List (List UInt8)) :
    Nat → List UInt8 → Expansion → Option Expansion
  | 0, _, e => some e
  | rounds + 1, line, e =>
      if e.argv.length < 16 then
        match nextToken line with
        | none => some e
        | some (t, rest) =>
            if expandedSize < e.eoff + ccpLineMax then some e
            else do expandLine env search rounds rest (← e.token env search t)
      else some e

end Expansion

section Texts

variable {buf buf' : Buffer expandedSize} {off d : Nat}

theorem textAt_step (buf : Buffer expandedSize) (inside : off < expandedSize) :
    textAt buf off = if buf.get off = 0 then [] else buf.get off :: textAt buf (off + 1) := by
  have more : expandedSize - off = 1 + (expandedSize - (off + 1)) := by omega
  rw [textAt, textAt, more, Buffer.slice_add, show buf.slice off 1 = [buf.get off] from rfl,
    List.singleton_append, List.takeWhile_cons]
  by_cases nul : buf.get off = 0 <;> simp [nul]

/-- A NUL at some distance ends the string there at the latest. -/
theorem textAt_ends (inside : off + d < expandedSize) (nul : buf.get (off + d) = 0) :
    (textAt buf off).length ≤ d ∧ buf.get (off + (textAt buf off).length) = 0 := by
  induction d generalizing off with
  | zero =>
      rw [Nat.add_zero] at inside nul
      rw [textAt_step buf inside, if_pos nul]
      exact ⟨Nat.le_refl 0, nul⟩
  | succ d ih =>
      rw [textAt_step buf (by omega)]
      split
      next here => exact ⟨Nat.zero_le _, here⟩
      next =>
        rw [Nat.add_succ, ← Nat.succ_add] at inside nul
        obtain ⟨short, ends⟩ := ih inside nul
        refine ⟨Nat.succ_le_succ short, ?_⟩
        rw [List.length_cons, ← Nat.add_assoc, Nat.add_right_comm]
        exact ends

/-- A string depends on the bytes up to a NUL only. -/
theorem textAt_congr (inside : off + d < expandedSize) (nul : buf.get (off + d) = 0)
    (same : ∀ i, off ≤ i → i ≤ off + d → buf'.get i = buf.get i) :
    textAt buf' off = textAt buf off := by
  induction d generalizing off with
  | zero =>
      rw [Nat.add_zero] at inside nul
      rw [textAt_step buf inside, textAt_step buf' inside, same off (Nat.le_refl _) (by omega),
        if_pos nul, if_pos nul]
  | succ d ih =>
      rw [textAt_step buf (by omega), textAt_step buf' (by omega),
        same off (Nat.le_refl _) (by omega)]
      rw [Nat.add_succ, ← Nat.succ_add] at inside nul
      rw [ih inside nul fun i after before => same i (by omega) (by omega)]

end Texts

section Packing

variable {e e' : Expansion} {base : Nat} {g : Globbing}

/-- Every string of the arguments ends in front of `eoff`, and the last byte of the buffer is
a NUL. -/
structure Expansion.Packed (e : Expansion) : Prop where
  inside : e.expanded.inside = true
  last : e.expanded.buf.get (expandedSize - 1) = 0
  eoff : e.eoff ≤ expandedSize
  ends : ∀ off ∈ e.argv, ∃ i, off ≤ i ∧ i < e.eoff ∧ e.expanded.buf.get i = 0

/-- The arguments and their bytes are there when more are added. -/
structure Expansion.Extends (e e' : Expansion) : Prop where
  argv : e.argv <+: e'.argv
  eoff : e.eoff ≤ e'.eoff
  same : ∀ i < e.eoff, e'.expanded.buf.get i = e.expanded.buf.get i

theorem Expansion.Extends.refl (e : Expansion) : e.Extends e :=
  ⟨List.prefix_refl _, Nat.le_refl _, fun _ _ => rfl⟩

theorem Expansion.Extends.trans {e'' : Expansion} (first : e.Extends e')
    (second : e'.Extends e'') : e.Extends e'' :=
  ⟨first.argv.trans second.argv, first.eoff.trans second.eoff,
    fun i before => (second.same i (before.trans_le first.eoff)).trans (first.same i before)⟩

/-- No argument changes when more are added behind it. -/
theorem Expansion.Packed.textAt_eq (packed : e.Packed) (grown : e.Extends e') {off : Nat}
    (mem : off ∈ e.argv) : textAt e'.expanded.buf off = textAt e.expanded.buf off := by
  obtain ⟨i, after, before, nul⟩ := packed.ends off mem
  obtain ⟨d, rfl⟩ := Nat.exists_eq_add_of_le after
  exact textAt_congr (before.trans_le packed.eoff) nul fun j _ upTo =>
    grown.same j (by omega)

theorem Expansion.Packed.copyArg (packed : e.Packed) (room : e.eoff < expandedSize)
    (tmp : List UInt8) : (e.copyArg tmp).Packed ∧ e.Extends (e.copyArg tmp) := by
  have fits : (tmp.take (expandedSize - 1 - e.eoff)).length ≤ expandedSize - 1 - e.eoff :=
    List.length_take_le _ _
  unfold Expansion.copyArg
  generalize tmp.take (expandedSize - 1 - e.eoff) = text at fits
  have last : e.eoff + text.length < expandedSize := by omega
  have same {i : Nat} (before : i < e.eoff) :
      ((e.expanded.copyIn e.eoff text).store (e.eoff + text.length) 0).buf.get i =
        e.expanded.buf.get i := by
    rw [Watched.get_store_ne _ _ (by omega), Watched.get_copyIn_of_disjoint _ (.inl before)]
  have nul := Watched.get_store (e.expanded.copyIn e.eoff text) 0 last
  constructor
  · refine ⟨?_, ?_, last, ?_⟩
    · simp [Watched.inside_copyIn packed.inside (Nat.le_of_lt last), last]
    · by_cases full : expandedSize - 1 = e.eoff + text.length
      · rw [full]
        exact nul
      · rw [Watched.get_store_ne _ _ full, Watched.get_copyIn_of_disjoint _ (by omega),
          packed.last]
    · intro off mem
      rcases List.mem_append.mp mem with old | new
      · obtain ⟨i, after, before, ends⟩ := packed.ends off old
        exact ⟨i, after, by simp only; omega, (same before).trans ends⟩
      · rw [List.mem_singleton.mp new]
        exact ⟨e.eoff + text.length, Nat.le_add_right _ _, Nat.lt_succ_self _, nul⟩
  · exact ⟨List.prefix_append _ _, by simp only; omega, fun i before => same before⟩

/-- What stores of `glob_expand` leave as it is. -/
structure Globbing.Grows (base : Nat) (g g' : Globbing) : Prop where
  inside : g.expanded.inside = true → g'.expanded.inside = true
  last : g'.expanded.buf.get (expandedSize - 1) = g.expanded.buf.get (expandedSize - 1)
  fill : g.fill ≤ g'.fill
  room : base + g'.fill < expandedSize
  same : ∀ i < base + g.fill, g'.expanded.buf.get i = g.expanded.buf.get i

theorem Globbing.put_grows (c : UInt8) (room : base + g.fill < expandedSize) :
    g.Grows base (g.put base c) := by
  unfold Globbing.put
  split
  next free =>
    have inside : base + g.fill < expandedSize - 1 := by omega
    refine ⟨fun sound => ?_, Watched.get_store_ne _ _ (by omega), Nat.le_succ _,
      by simp only; omega, fun i before => Watched.get_store_ne _ _ (Nat.ne_of_lt before)⟩
    simp [sound]
    omega
  next => exact ⟨id, rfl, Nat.le_refl _, room, fun _ _ => rfl⟩

theorem Globbing.Grows.trans {g' g'' : Globbing} (first : g.Grows base g')
    (second : g'.Grows base g'') : g.Grows base g'' :=
  ⟨fun sound => second.inside (first.inside sound), second.last.trans first.last,
    first.fill.trans second.fill, second.room,
    fun i before => (second.same i (by have := first.fill; omega)).trans (first.same i before)⟩

theorem Globbing.puts_grows (chars : List UInt8) (room : base + g.fill < expandedSize) :
    g.Grows base (chars.foldl (Globbing.put base) g) := by
  induction chars generalizing g with
  | nil => exact ⟨id, rfl, Nat.le_refl _, room, fun _ _ => rfl⟩
  | cons c chars ih =>
      have first := Globbing.put_grows c room
      exact first.trans (ih first.room)

/-- The names so far lie behind each other from `base` on, each with a NUL in front of the
next one; where the buffer is full that is its last byte. -/
structure Globbing.Packed (base : Nat) (start : Buffer expandedSize) (g : Globbing) : Prop where
  inside : g.expanded.inside = true
  last : g.expanded.buf.get (expandedSize - 1) = 0
  room : base + g.fill < expandedSize
  same : ∀ i < base, g.expanded.buf.get i = start.get i
  ends : ∀ off ∈ g.matched, ∃ i, off ≤ i ∧ g.expanded.buf.get i = 0 ∧
    (i < base + g.fill ∨ i = expandedSize - 1 ∧ i = base + g.fill)
  behind : ∀ front off, g.matched = front ++ [off] → base ≤ off ∧ off < expandedSize ∧
    ∀ off' ∈ front, ∃ i, off' ≤ i ∧ i ≤ off ∧ g.expanded.buf.get i = 0

/-- A name that is stored ends with a NUL, which the last byte of the buffer is when the name
is cut. -/
theorem Globbing.name_ends (raw : List UInt8) (room : base + g.fill < expandedSize)
    (last : g.expanded.buf.get (expandedSize - 1) = 0) :
    ∃ i, base + g.fill ≤ i ∧ (g.name base raw).expanded.buf.get i = 0 ∧
      (i < base + (g.name base raw).fill ∨
        i = expandedSize - 1 ∧ i = base + (g.name base raw).fill) := by
  have grown := Globbing.puts_grows (recordName raw) room
  have closed : (g.name base raw).expanded =
      (((recordName raw).foldl (Globbing.put base) g).put base 0).expanded := by
    simp [Globbing.name, List.foldl_append]
  have fill : (g.name base raw).fill =
      (((recordName raw).foldl (Globbing.put base) g).put base 0).fill := by
    simp [Globbing.name, List.foldl_append]
  rw [closed, fill]
  generalize (recordName raw).foldl (Globbing.put base) g = g' at grown
  have ahead := grown.fill
  have room' := grown.room
  unfold Globbing.put
  split
  next free =>
    exact ⟨base + g'.fill, by omega, Watched.get_store _ 0 (by omega), .inl (Nat.lt_succ_self _)⟩
  next full =>
    exact ⟨expandedSize - 1, by omega, grown.last.trans last, .inr ⟨rfl, by omega⟩⟩

theorem Globbing.Packed.name {start : Buffer expandedSize} (packed : g.Packed base start)
    (raw : List UInt8) : (g.name base raw).Packed base start := by
  have grown : g.Grows base (g.name base raw) := by
    have puts := Globbing.puts_grows (recordName raw ++ [0]) packed.room
    exact ⟨puts.inside, puts.last, puts.fill, puts.room, puts.same⟩
  have matched : (g.name base raw).matched = g.matched ++ [base + g.fill] := rfl
  have kept : ∀ off ∈ g.matched, ∃ i, off ≤ i ∧ i ≤ base + g.fill ∧
      (g.name base raw).expanded.buf.get i = 0 ∧ (i < base + (g.name base raw).fill ∨
        i = expandedSize - 1 ∧ i = base + (g.name base raw).fill) := by
    intro off mem
    obtain ⟨i, after, nul, before | ⟨rfl, full⟩⟩ := packed.ends off mem
    · exact ⟨i, after, Nat.le_of_lt before, (grown.same i before).trans nul,
        .inl (by have := grown.fill; omega)⟩
    · have ahead := grown.fill
      have room := grown.room
      exact ⟨_, after, Nat.le_of_eq full, grown.last.trans nul, .inr ⟨rfl, by omega⟩⟩
  refine ⟨grown.inside packed.inside, grown.last.trans packed.last, grown.room,
    fun i before => (grown.same i (by omega)).trans (packed.same i before), ?_, ?_⟩
  · intro off mem
    rw [matched] at mem
    rcases List.mem_append.mp mem with old | new
    · obtain ⟨i, after, -, nul, where_⟩ := kept off old
      exact ⟨i, after, nul, where_⟩
    · rw [List.mem_singleton.mp new]
      exact Globbing.name_ends raw packed.room packed.last
  · intro front off split
    rw [matched] at split
    obtain ⟨rfl, same⟩ := List.append_inj' split rfl
    obtain rfl := List.cons.inj same |>.1
    refine ⟨Nat.le_add_right _ _, packed.room, fun off' mem => ?_⟩
    obtain ⟨i, after, upTo, nul, -⟩ := kept off' mem
    exact ⟨i, after, upTo, nul⟩

theorem Globbing.Packed.names {start : Buffer expandedSize} (packed : g.Packed base start)
    (raws : List (List UInt8)) : (raws.foldl (Globbing.name base) g).Packed base start := by
  induction raws generalizing g with
  | nil => exact packed
  | cons raw raws ih => exact ih (packed.name raw)

theorem Expansion.Packed.globNames (packed : e.Packed) (room : e.eoff < expandedSize)
    (search : List UInt8 → List (List UInt8)) (pat : List UInt8) :
    (e.globNames search pat).Packed e.eoff e.expanded.buf :=
  Globbing.Packed.names (g := { expanded := e.expanded, fill := 0, matched := [] })
    ⟨packed.inside, packed.last, room, fun _ _ => rfl, nofun,
      fun front off split => by cases front <;> cases split⟩ _

theorem Expansion.Packed.globArgs (packed : e.Packed) (room : e.eoff < expandedSize)
    (search : List UInt8 → List (List UInt8)) (tmp : List UInt8) :
    (e.globArgs search tmp).Packed ∧ e.Extends (e.globArgs search tmp) := by
  unfold Expansion.globArgs
  split
  · have names := packed.globNames room search tmp
    generalize e.globNames search tmp = g at names
    simp only
    cases final : g.matched.getLast? with
    | none => exact packed.copyArg room tmp
    | some last =>
        obtain ⟨front, split⟩ := List.getLast?_eq_some_iff.mp final
        obtain ⟨behind, inside, before⟩ := names.behind front last split
        obtain ⟨d, reach⟩ := Nat.exists_eq_add_of_le (Nat.le_sub_one_of_lt inside)
        have closed := names.last
        rw [reach] at closed
        obtain ⟨short, nul⟩ := textAt_ends (by omega) closed
        constructor
        · refine ⟨names.inside, names.last, by simp only; omega, fun off mem => ?_⟩
          rw [split] at mem
          simp only [List.mem_append, List.mem_singleton] at mem
          rcases mem with old | earlier | rfl
          · obtain ⟨i, after, before, ends⟩ := packed.ends off old
            exact ⟨i, after, by simp only; omega, (names.same i before).trans ends⟩
          · obtain ⟨i, after, upTo, ends⟩ := before off earlier
            exact ⟨i, after, by simp only; omega, ends⟩
          · exact ⟨_, Nat.le_add_right _ _, Nat.lt_succ_self _, nul⟩
        · exact ⟨List.prefix_append _ _, by simp only; omega, names.same⟩
  · exact packed.copyArg room tmp

theorem Expansion.Packed.token (packed : e.Packed) (room : e.eoff < expandedSize) {env : Env}
    {search : List UInt8 → List (List UInt8)} {t : List UInt8}
    (run : e.token env search t = some e') : e'.Packed ∧ e.Extends e' := by
  obtain ⟨tmp, -, stored⟩ := Option.bind_eq_some_iff.mp run
  split at stored
  next =>
    obtain rfl := Option.some.inj stored
    split
    · exact packed.globArgs room search tmp
    · exact packed.copyArg room tmp
  next => cases stored

/-- The expansion of any line keeps its writes inside the buffer and the arguments that it
has as they are. -/
theorem Expansion.Packed.line (packed : e.Packed) {env : Env}
    {search : List UInt8 → List (List UInt8)} {rounds : Nat} {line : List UInt8}
    (run : expandLine env search rounds line e = some e') : e'.Packed ∧ e.Extends e' := by
  induction rounds generalizing line e with
  | zero =>
      obtain rfl := Option.some.inj run
      exact ⟨packed, .refl e⟩
  | succ rounds ih =>
      rw [expandLine] at run
      split at run
      · split at run
        · obtain rfl := Option.some.inj run
          exact ⟨packed, .refl e⟩
        · split at run
          · obtain rfl := Option.some.inj run
            exact ⟨packed, .refl e⟩
          · obtain ⟨e₁, first, rest⟩ := Option.bind_eq_some_iff.mp run
            obtain ⟨packed₁, grown⟩ := packed.token (by grind) first
            obtain ⟨packed', grown'⟩ := ih packed₁ rest
            exact ⟨packed', grown.trans grown'⟩
      · obtain rfl := Option.some.inj run
        exact ⟨packed, .refl e⟩

/-- What the loop has done after fewer rounds stays as it is. -/
theorem Expansion.Packed.prefix_line (packed : e.Packed) {env : Env}
    {search : List UInt8 → List (List UInt8)} {n rounds : Nat} {line : List UInt8}
    {e₁ : Expansion} (fewer : n ≤ rounds) (first : expandLine env search n line e = some e₁)
    (run : expandLine env search rounds line e = some e') : e₁.Packed ∧ e₁.Extends e' := by
  induction n generalizing rounds line e with
  | zero =>
      obtain rfl := Option.some.inj first
      exact ⟨packed, (packed.line run).2⟩
  | succ n ih =>
      obtain ⟨rounds, rfl⟩ := Nat.exists_eq_succ_of_ne_zero (Nat.ne_zero_of_lt fewer)
      rw [expandLine] at first run
      split at first
      next room =>
        rw [if_pos room] at run
        cases token : nextToken line with
        | none =>
            rw [token] at first run
            obtain rfl := Option.some.inj first
            obtain rfl := Option.some.inj run
            exact ⟨packed, .refl e⟩
        | some result =>
            simp only [token] at first run
            split at first
            next full =>
              rw [if_pos full] at run
              obtain rfl := Option.some.inj first
              obtain rfl := Option.some.inj run
              exact ⟨packed, .refl e⟩
            next free =>
              rw [if_neg free] at run
              obtain ⟨e₂, round, first⟩ := Option.bind_eq_some_iff.mp first
              obtain ⟨e₃, round', run⟩ := Option.bind_eq_some_iff.mp run
              obtain rfl := Option.some.inj (round.symm.trans round')
              exact ih (packed.token (by grind) round).1 (Nat.le_of_succ_le_succ fewer) first run
      next full =>
        rw [if_neg full] at run
        obtain rfl := Option.some.inj first
        obtain rfl := Option.some.inj run
        exact ⟨packed, .refl e⟩

end Packing

section Totality

variable {env : Env} {search : List UInt8 → List (List UInt8)}

theorem Env.Reached.appendValue (reached : env.Reached) (name : List UInt8) {out : List UInt8}
    (short : out.length < ccpLineMax) :
    ∃ out', Xcpm.appendValue env name out = some out' ∧ out'.length < ccpLineMax := by
  obtain ⟨entries, holds⟩ := reached.holds
  rw [Xcpm.appendValue, holds.get]
  refine ⟨_, rfl, ?_⟩
  simp only [List.length_append, List.length_take]
  omega

/-- The expansion of a token leaves room for a NUL in `tmp`. -/
theorem Env.Reached.expandLoop (reached : env.Reached) (rounds : Nat) (p : List UInt8)
    {out : List UInt8} (short : out.length < ccpLineMax) :
    ∃ out', Xcpm.expandLoop env rounds p out = some out' ∧ out'.length < ccpLineMax := by
  induction rounds generalizing p out with
  | zero => exact ⟨out, rfl, short⟩
  | succ rounds ih =>
      cases p with
      | nil => exact ⟨out, rfl, short⟩
      | cons c rest =>
          rw [Xcpm.expandLoop]
          split
          next room =>
            have next : (out ++ [c]).length < ccpLineMax := by
              rw [List.length_append, List.length_singleton]
              omega
            simp only
            split
            · obtain ⟨out', value, short'⟩ := reached.appendValue
                ((rest.takeWhile isNameChar).take 31) short
              rw [value]
              exact ih _ short'
            split
            · obtain ⟨out', value, short'⟩ := reached.appendValue
                ((rest.takeWhile isNameChar).take 31) short
              rw [value]
              exact ih _ short'
            · exact ih rest next
          next => exact ⟨out, rfl, short⟩

theorem Env.Reached.token (reached : env.Reached) (e : Expansion) (t : List UInt8) :
    ∃ e', e.token env search t = some e' := by
  have empty : ([] : List UInt8).length < ccpLineMax := by decide
  obtain ⟨tmp, run, short⟩ := reached.expandLoop t.length t empty
  rw [Expansion.token, expandToken, run]
  exact ⟨_, if_pos short⟩

theorem Env.Reached.expandLine (reached : env.Reached) (rounds : Nat) (line : List UInt8)
    (e : Expansion) : ∃ e', Xcpm.expandLine env search rounds line e = some e' := by
  induction rounds generalizing line e with
  | zero => exact ⟨e, rfl⟩
  | succ rounds ih =>
      rw [Xcpm.expandLine]
      split
      · split
        · exact ⟨e, rfl⟩
        · split
          · exact ⟨e, rfl⟩
          · obtain ⟨e', round⟩ := reached.token e _
            rw [round]
            exact ih _ e'
      · exact ⟨e, rfl⟩

end Totality

end Ncd15.Xcpm
