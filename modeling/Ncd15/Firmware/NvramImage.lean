import Ncd15.Emulator.Duart
import Ncd15.Library.PythonInt
import Ncd15.Library.Scatter
import Mathlib.Tactic.IntervalCases

/-!
# The image of the EEPROM

`mknvram.py` lays out 128 bytes for the 93C46, `nvram_load_file` takes them as 64
little-endian words, and the monitor mirrors every word high byte first.  In the mirror each
address is four bytes in a row; in the file its bytes are swapped in pairs, and the three
addresses that start in the middle of a word are interleaved with what is next to them.
-/

namespace Ncd15.Firmware

open Ncd15.Library Ncd15.Emulator

section Arguments

abbrev Ip := Vector (BitVec 8) 4

abbrev Mac := Vector (BitVec 8) 6

/-- An item of `bytes(...)`; `none` is `ValueError`. -/
def pyByte (base : Nat) (text : List Char) : Option (BitVec 8) :=
  (pyInt base text).bind fun v => if 0 ≤ v ∧ v < 256 then some (BitVec.ofInt 8 v) else none

/-- `parse_mac`, with the bytes that `random.randint` would give. -/
def parseMac (random : Mac) (s : List Char) : Option Mac :=
  if s = "random".toList then some (random.set 0 (random[0] &&& 0xFC#8 ||| 0x02#8))
  else
    match s.splitOn ':' with
    | [a, b, c, d, e, f] => do
        return #v[← pyByte 16 a, ← pyByte 16 b, ← pyByte 16 c, ← pyByte 16 d, ← pyByte 16 e,
          ← pyByte 16 f]
    | _ => none

def parseIp (s : List Char) : Option Ip :=
  match s.splitOn '.' with
  | [a, b, c, d] => do
      return #v[← pyByte 10 a, ← pyByte 10 b, ← pyByte 10 c, ← pyByte 10 d]
  | _ => none

/-- The arguments but `--out`. -/
structure Args where
  mac : List Char
  ip : Option (List Char)
  mask : Option (List Char)
  gateway : Option (List Char)
  server : Option (List Char)
  broadcast : Option (List Char)

/-- An argument that counts as true: one that is there and not empty. -/
def given (arg : Option (List Char)) : Option (List Char) := arg.filter (· ≠ [])

end Arguments

section Image

/-- `NVRAM_BYTES` of them. -/
abbrev Image := Vector (BitVec 8) 128

def Image.blank : Image := Vector.replicate 128 0xFF#8

def writeMac (data : Image) (mac : Mac) : Image :=
  let data := (data.setIfInBounds 2 mac[1]).setIfInBounds 3 mac[0]
  let data := (data.setIfInBounds 4 mac[3]).setIfInBounds 5 mac[2]
  (data.setIfInBounds 6 mac[5]).setIfInBounds 7 mac[4]

def writeIpPairswapped (data : Image) (off : Nat) (ip : Ip) : Image :=
  let data := (data.setIfInBounds (off + 0) ip[1]).setIfInBounds (off + 1) ip[0]
  (data.setIfInBounds (off + 2) ip[3]).setIfInBounds (off + 3) ip[2]

def writeXncdField (data : Image) (base : Nat) (ip : Ip) : Image :=
  let data := (data.setIfInBounds (base + 0) ip[0]).setIfInBounds (base + 2) ip[2]
  (data.setIfInBounds (base + 3) ip[1]).setIfInBounds (base + 5) ip[3]

/-- `if args.x: write(data, ..., args.x)`. -/
def writeGiven (arg : Option (List Char)) (write : Image → Ip → Image) (data : Image) :
    Option Image :=
  match given arg with
  | none => some data
  | some s => (parseIp s).map (write data)

/-- `IP | ~mask`. -/
def defaultBroadcast (ip mk : Ip) : Ip := Vector.zipWith (fun a b => a ||| ~~~b) ip mk

/-- `".".join(str(b) for b in bc)`. -/
def ipText (ip : Ip) : List Char :=
  ['.'].intercalate (ip.toList.map fun b => Nat.toDigits 10 b.toNat)

def writeBroadcast (args : Args) (data : Image) : Option Image :=
  match given args.broadcast, given args.ip, given args.mask with
  | some s, _, _ => (parseIp s).map (writeXncdField data 26)
  | none, some ip, some mask => do
      let bc := defaultBroadcast (← parseIp ip) (← parseIp mask)
      (parseIp (ipText bc)).map (writeXncdField data 26)
  | none, _, _ => some data

def haveStatic (args : Args) : Bool :=
  (given args.ip).isSome || (given args.mask).isSome || (given args.gateway).isSome ||
    (given args.server).isSome

def clearFlags (data : Image) : Image :=
  let data := data.setIfInBounds 17 (data[17] &&& ~~~0x06#8)
  let data := data.setIfInBounds 19 (data[19] &&& ~~~0x0C#8)
  data.setIfInBounds 111 (data[111] &&& ~~~0x08#8)

/-- `main` up to the file it writes; `none` when an address is malformed. -/
def mknvram (random : Mac) (args : Args) : Option Image := do
  let mac ← parseMac random args.mac
  let data := writeMac Image.blank mac
  let data ← writeGiven args.ip (writeIpPairswapped · 8) data
  let data ← writeGiven args.mask (writeXncdField · 18) data
  let data ← writeGiven args.gateway (writeXncdField · 22) data
  let data ← writeBroadcast args data
  let data ← writeGiven args.server (writeIpPairswapped · 106) data
  return if haveStatic args then clearFlags data else data

end Image

section Chip

/-- `nvram_load_file`; `none` is a file that cannot be opened. -/
def nvramLoadFile (n : Nvram) (file : Option (List (BitVec 8))) : Int × Nvram :=
  match file with
  | none => (-1, n)
  | some content =>
      let buf := content.take (nvramWords * 2)
      if buf.length ≠ nvramWords * 2 then (-1, n)
      else
        (0, { n with
          mem := Vector.ofFn fun i =>
            (buf.getD (i * 2 + 1) 0).setWidth 16 <<< 8 ||| (buf.getD (i * 2) 0).setWidth 16 })

/-- What `nvram_save_file` writes. -/
def nvramSaveFile (n : Nvram) : List (BitVec 8) :=
  (List.range nvramWords).flatMap fun i =>
    [(n.mem.getD i 0).setWidth 8, (n.mem.getD i 0 >>> 8).setWidth 8]

/-- The mirror of the monitor: every word high byte first. -/
def mirror (mem : Vector (BitVec 16) nvramWords) (i : Nat) : BitVec 8 :=
  if i % 2 = 0 then (mem.getD (i / 2) 0 >>> 8).setWidth 8 else (mem.getD (i / 2) 0).setWidth 8

def mirrored (mem : Vector (BitVec 16) nvramWords) (off count : Nat) : List (BitVec 8) :=
  (List.range count).map fun k => mirror mem (off + k)

/-- `struct[F..F+3]`, where the mirror of word 8 is at `struct+8`. -/
def structField (mem : Vector (BitVec 16) nvramWords) (f : Nat) : List (BitVec 8) :=
  mirrored mem (16 + (f - 8)) 4

end Chip

section Parsing

theorem pyByte_toDigits (b : BitVec 8) : pyByte 10 (Nat.toDigits 10 b.toNat) = some b := by
  have small := b.isLt
  rw [pyByte, pyInt_toDigits, Option.bind_some, if_pos (by omega), BitVec.ofInt_natCast,
    BitVec.ofNat_toNat, BitVec.setWidth_eq]

theorem dot_not_mem_toDigits (n : Nat) : '.' ∉ Nat.toDigits 10 n := fun mem =>
  absurd (Nat.isDigit_of_mem_toDigits (by decide) (Nat.le_refl 10) mem) (by decide)

theorem toList_ip (ip : Ip) : ip.toList = [ip[0], ip[1], ip[2], ip[3]] := by
  apply List.ext_getElem (by simp)
  intro i _ _
  match i with
  | 0 | 1 | 2 | 3 => simp

/-- The text of an address is read back. -/
theorem parseIp_ipText (ip : Ip) : parseIp (ipText ip) = some ip := by
  have bytes := toList_ip ip
  have split : (ipText ip).splitOn '.' = ip.toList.map fun x => Nat.toDigits 10 x.toNat := by
    refine List.splitOn_intercalate '.' (fun text mem => ?_) (by rw [bytes]; simp)
    obtain ⟨x, -, rfl⟩ := List.mem_map.mp mem
    exact dot_not_mem_toDigits _
  rw [parseIp, split, bytes]
  simp only [List.map_cons, List.map_nil, pyByte_toDigits]
  refine congrArg some (Vector.toList_inj.mp ?_)
  exact bytes.symm

/-- The addresses given, and the address of the interface. -/
structure Addresses where
  mac : Mac
  ip : Option Ip
  mask : Option Ip
  gateway : Option Ip
  broadcast : Option Ip
  server : Option Ip
  deriving DecidableEq

def parseGiven (arg : Option (List Char)) : Option (Option Ip) :=
  match given arg with
  | none => some none
  | some s => (parseIp s).map some

def Args.addresses (random : Mac) (args : Args) : Option Addresses := do
  return { mac := ← parseMac random args.mac, ip := ← parseGiven args.ip,
           mask := ← parseGiven args.mask, gateway := ← parseGiven args.gateway,
           broadcast := ← parseGiven args.broadcast, server := ← parseGiven args.server }

/-- The broadcast address that is stored. -/
def Addresses.broadcastField (a : Addresses) : Option Ip :=
  match a.broadcast, a.ip, a.mask with
  | some bc, _, _ => some bc
  | none, some ip, some mask => some (defaultBroadcast ip mask)
  | none, _, _ => none

def Addresses.static (a : Addresses) : Bool :=
  a.ip.isSome || a.mask.isSome || a.gateway.isSome || a.server.isSome

/-- An address that is there is written. -/
def writeField (write : Image → Ip → Image) (ip : Option Ip) (data : Image) : Image :=
  ip.elim data (write data)

/-- The image of some addresses. -/
def Addresses.image (a : Addresses) : Image :=
  let data := writeMac Image.blank a.mac
  let data := writeField (writeIpPairswapped · 8) a.ip data
  let data := writeField (writeXncdField · 18) a.mask data
  let data := writeField (writeXncdField · 22) a.gateway data
  let data := writeField (writeXncdField · 26) a.broadcastField data
  let data := writeField (writeIpPairswapped · 106) a.server data
  if a.static then clearFlags data else data

theorem writeGiven_eq (arg : Option (List Char)) (write : Image → Ip → Image) (data : Image) :
    writeGiven arg write data = (parseGiven arg).map fun ip => writeField write ip data := by
  unfold writeGiven parseGiven
  cases given arg with
  | none => rfl
  | some s =>
      dsimp only
      cases parseIp s <;> rfl

theorem parseGiven_none {arg : Option (List Char)} (absent : given arg = none) :
    parseGiven arg = some none := by
  rw [parseGiven, absent]

theorem parseGiven_some {arg : Option (List Char)} {s : List Char} (here : given arg = some s) :
    parseGiven arg = (parseIp s).map some := by
  rw [parseGiven, here]

/-- The broadcast address, once the address and the mask have been written. -/
theorem writeBroadcast_eq {args : Args} {a : Addresses} (ip : parseGiven args.ip = some a.ip)
    (mask : parseGiven args.mask = some a.mask)
    (data : Image) :
    writeBroadcast args data = (parseGiven args.broadcast).map fun bc =>
      writeField (writeXncdField · 26) { a with broadcast := bc }.broadcastField data := by
  unfold writeBroadcast
  cases bcHere : given args.broadcast with
  | some s =>
      rw [parseGiven_some bcHere]
      dsimp only
      cases parseIp s <;> rfl
  | none =>
      rw [parseGiven_none bcHere]
      cases ipHere : given args.ip with
      | none =>
          rw [parseGiven_none ipHere] at ip
          simp [Addresses.broadcastField, ← Option.some.inj ip, writeField]
      | some s =>
          rw [parseGiven_some ipHere] at ip
          obtain ⟨x, parsedIp, sameIp⟩ := Option.map_eq_some_iff.mp ip
          cases maskHere : given args.mask with
          | none =>
              rw [parseGiven_none maskHere] at mask
              simp [Addresses.broadcastField, ← Option.some.inj mask, writeField]
          | some t =>
              rw [parseGiven_some maskHere] at mask
              obtain ⟨y, parsedMask, sameMask⟩ := Option.map_eq_some_iff.mp mask
              simp [Addresses.broadcastField, ← sameIp, ← sameMask, parsedIp, parsedMask,
                parseIp_ipText, writeField]

theorem isSome_of_parseGiven {arg : Option (List Char)} {ip : Option Ip}
    (parsed : parseGiven arg = some ip) : (given arg).isSome = ip.isSome := by
  unfold parseGiven at parsed
  cases here : given arg with
  | none =>
      rw [here] at parsed
      rw [← Option.some.inj parsed]
      rfl
  | some s =>
      rw [here] at parsed
      obtain ⟨x, -, rfl⟩ := Option.map_eq_some_iff.mp parsed
      rfl

/-- The script makes the image of the addresses it is given, and none if one of them is
malformed. -/
theorem mknvram_eq (random : Mac) (args : Args) :
    mknvram random args = (args.addresses random).map Addresses.image := by
  unfold mknvram Args.addresses
  simp only [writeGiven_eq]
  cases parseMac random args.mac with
  | none => rfl
  | some mac =>
  cases ipParsed : parseGiven args.ip with
  | none => rfl
  | some ip =>
  cases maskParsed : parseGiven args.mask with
  | none => rfl
  | some mask =>
  cases gatewayParsed : parseGiven args.gateway with
  | none => rfl
  | some gateway =>
  simp only [Option.bind_eq_bind, Option.bind_some, Option.map_some,
    writeBroadcast_eq (a := ⟨mac, ip, mask, gateway, none, none⟩) ipParsed maskParsed]
  cases parseGiven args.broadcast with
  | none => rfl
  | some broadcast =>
  cases serverParsed : parseGiven args.server with
  | none => rfl
  | some server =>
  have static : haveStatic args =
      Addresses.static ⟨mac, ip, mask, gateway, broadcast, server⟩ := by
    rw [haveStatic, isSome_of_parseGiven ipParsed, isSome_of_parseGiven maskParsed,
      isSome_of_parseGiven gatewayParsed, isSome_of_parseGiven serverParsed]
    rfl
  simp only [Option.bind_some, Option.map_some, static]
  rfl

end Parsing

section Layout

/-- The other byte of a word. -/
def swapPair (i : Nat) : Nat := if i % 2 = 0 then i + 1 else i - 1

/-- The bytes of a field whose bytes are swapped in pairs, in the order of the address. -/
def pairSwapped (off count : Nat) : List Nat := (List.range count).map fun k => swapPair (off + k)

/-- The bytes of a field of the interface struct: `base+1` and `base+4` belong to others. -/
def interleaved (base : Nat) : List Nat := [base, base + 3, base + 2, base + 5]

def blankIp : Ip := Vector.replicate 4 0xFF#8

/-- What a flag byte becomes. -/
def Addresses.flag (a : Addresses) (cleared : BitVec 8) : BitVec 8 :=
  if a.static then ~~~cleared else 0xFF#8

def Addresses.fields (a : Addresses) : List (ScatteredField (BitVec 8)) :=
  [⟨pairSwapped 2 6, some a.mac.toList⟩, ⟨pairSwapped 8 4, a.ip.map Vector.toList⟩,
    ⟨interleaved 18, a.mask.map Vector.toList⟩, ⟨interleaved 22, a.gateway.map Vector.toList⟩,
    ⟨interleaved 26, a.broadcastField.map Vector.toList⟩,
    ⟨pairSwapped 106 4, a.server.map Vector.toList⟩,
    ⟨[17, 19, 111], if a.static then some [0xF9#8, 0xF3#8, 0xF7#8] else none⟩]

/-- What an image holds: every address that is given, blank bytes for those that are not, the
three flags, and nothing else. -/
structure Laid (a : Addresses) (image : Image) : Prop where
  mac : gatherAt image (pairSwapped 2 6) = a.mac.toList.map some
  ip : gatherAt image (pairSwapped 8 4) = (a.ip.getD blankIp).toList.map some
  mask : gatherAt image (interleaved 18) = (a.mask.getD blankIp).toList.map some
  gateway : gatherAt image (interleaved 22) = (a.gateway.getD blankIp).toList.map some
  broadcast : gatherAt image (interleaved 26) = (a.broadcastField.getD blankIp).toList.map some
  server : gatherAt image (pairSwapped 106 4) = (a.server.getD blankIp).toList.map some
  flags : gatherAt image [17, 19, 111] =
    [a.flag 0x06#8, a.flag 0x0C#8, a.flag 0x08#8].map some
  rest : ∀ i < 128, (∀ field ∈ a.fields, i ∉ field.positions) → image[i]? = some 0xFF#8

theorem fields_apart (a : Addresses) : FieldsApart 128 a.fields := by
  constructor
  case nodup =>
    change (pairSwapped 2 6 ++ (pairSwapped 8 4 ++ (interleaved 18 ++ (interleaved 22 ++
      (interleaved 26 ++ (pairSwapped 106 4 ++ ([17, 19, 111] ++ []))))))).Nodup
    decide
  case inside =>
    simp only [Addresses.fields, List.forall_mem_cons]
    decide
  case filled =>
    simp only [Addresses.fields, List.forall_mem_cons, Option.mem_def, Option.map_eq_some_iff]
    cases a.static <;> simp [pairSwapped, interleaved]

theorem writeMac_eq (data : Image) (mac : Mac) :
    writeMac data mac = scatterAt data (pairSwapped 2 6) mac.toList := by
  have bytes : mac.toList = [mac[0], mac[1], mac[2], mac[3], mac[4], mac[5]] := by
    apply List.ext_getElem (by simp)
    intro i inside _
    have small : i < 6 := by simpa using inside
    interval_cases i <;> simp
  rw [bytes, writeMac]
  rw [setIfInBounds_comm _ _ _ (show 2 ≠ 3 by decide),
    setIfInBounds_comm _ _ _ (show 4 ≠ 5 by decide),
    setIfInBounds_comm _ _ _ (show 6 ≠ 7 by decide)]
  rfl

theorem writeIpPairswapped_eq (off : Nat) (data : Image) (ip : Ip)
    (even : pairSwapped off 4 = [off + 1, off, off + 3, off + 2]) :
    writeIpPairswapped data off ip = scatterAt data (pairSwapped off 4) ip.toList := by
  rw [toList_ip, even, writeIpPairswapped]
  rw [setIfInBounds_comm _ _ _ (show off + 0 ≠ off + 1 by omega),
    setIfInBounds_comm _ _ _ (show off + 2 ≠ off + 3 by omega)]
  rfl

theorem writeXncdField_eq (data : Image) (base : Nat) (ip : Ip) :
    writeXncdField data base ip = scatterAt data (interleaved base) ip.toList := by
  rw [toList_ip, writeXncdField]
  rw [setIfInBounds_comm _ _ _ (show base + 2 ≠ base + 3 by omega)]
  rfl

theorem writeField_eq {write : Image → Ip → Image} {positions : List Nat}
    (writes : ∀ data ip, write data ip = scatterAt data positions ip.toList) (ip : Option Ip)
    (data : Image) :
    writeField write ip data = ScatteredField.store ⟨positions, ip.map Vector.toList⟩ data := by
  cases ip with
  | none => rfl
  | some ip => exact writes data ip

/-- The flag bytes are blank until they are cleared. -/
theorem clearFlags_eq {data : Image} (blank : ∀ i ∈ [17, 19, 111], data[i]? = some 0xFF#8) :
    clearFlags data = scatterAt data [17, 19, 111] [0xF9#8, 0xF3#8, 0xF7#8] := by
  have at17 : data[17] = 0xFF#8 := Option.some.inj (blank 17 (by decide))
  have at19 : data[19] = 0xFF#8 := Option.some.inj (blank 19 (by decide))
  have at111 : data[111] = 0xFF#8 := Option.some.inj (blank 111 (by decide))
  simp only [clearFlags, at17, at19, at111, Vector.getElem_setIfInBounds]
  rfl

theorem flags_apart (a : Addresses) :
    ∀ field ∈ a.fields.take 6, ∀ i ∈ [17, 19, 111], i ∉ field.positions := by
  intro field mem
  have apart : ∀ positions ∈ [pairSwapped 2 6, pairSwapped 8 4, interleaved 18, interleaved 22,
      interleaved 26, pairSwapped 106 4], ∀ i ∈ [17, 19, 111], i ∉ positions := by
    decide
  exact apart field.positions (List.mem_map_of_mem mem)

theorem blank_get (i : Nat) (inside : i < 128) : Image.blank[i]? = some 0xFF#8 :=
  Vector.getElem?_replicate_of_lt inside

theorem image_eq (a : Addresses) : a.image = storeFields Image.blank a.fields := by
  have pairs8 := writeField_eq fun data ip => writeIpPairswapped_eq 8 data ip rfl
  have pairs106 := writeField_eq fun data ip => writeIpPairswapped_eq 106 data ip rfl
  have struct (base : Nat) := writeField_eq fun data ip => writeXncdField_eq data base ip
  rw [Addresses.image, writeMac_eq, pairs8, struct, struct, struct, pairs106]
  split
  case isTrue static =>
    rw [clearFlags_eq]
    · rw [Addresses.fields, if_pos static]
      rfl
    · intro i flag
      change (storeFields Image.blank (a.fields.take 6))[i]? = _
      rw [storeFields_other fun field mem => flags_apart a field mem i flag]
      have inside : ∀ i ∈ [17, 19, 111], i < 128 := by decide
      exact blank_get i (inside i flag)
  case isFalse dynamic =>
    rw [Addresses.fields, if_neg dynamic]
    rfl

/-- A field that is not stored is blank. -/
theorem gatherAt_stored {a : Addresses} {positions : List Nat} {count : Nat}
    (ip : Option (Vector (BitVec 8) count))
    (mem : ⟨positions, ip.map Vector.toList⟩ ∈ a.fields) (length : positions.length = count) :
    gatherAt (storeFields Image.blank a.fields) positions =
      (ip.getD (Vector.replicate count 0xFF#8)).toList.map some := by
  have apart := fields_apart a
  refine (gatherAt_storeFields apart mem).trans ?_
  cases ip with
  | some ip => rfl
  | none =>
      dsimp only [Option.map_none, Option.getD_none]
      rw [Vector.toList_replicate, List.map_replicate, ← length, ← List.map_const']
      refine List.map_congr_left fun i here => ?_
      rw [blank_get _ (apart.inside _ mem i here)]

theorem laid_image (a : Addresses) : Laid a a.image := by
  have apart := fields_apart a
  rw [image_eq]
  constructor
  case mac => exact gatherAt_stored (some a.mac) (by simp [Addresses.fields]) rfl
  case ip => exact gatherAt_stored _ (by simp [Addresses.fields]) rfl
  case mask => exact gatherAt_stored _ (by simp [Addresses.fields]) rfl
  case gateway => exact gatherAt_stored _ (by simp [Addresses.fields]) rfl
  case broadcast => exact gatherAt_stored _ (by simp [Addresses.fields]) rfl
  case server => exact gatherAt_stored _ (by simp [Addresses.fields]) rfl
  case flags =>
    have mem : ⟨[17, 19, 111], if a.static then some [0xF9#8, 0xF3#8, 0xF7#8] else none⟩ ∈
        a.fields := by simp [Addresses.fields]
    refine (gatherAt_storeFields apart mem).trans ?_
    cases static : a.static <;> simp only [Addresses.flag, static] <;> rfl
  case rest =>
    intro i inside other
    rw [storeFields_other other, blank_get i inside]

end Layout

section Reading

/-- Pairs of entries of a list are its entries in a row. -/
theorem flatMap_pairs {α : Type} (f : Nat → α) (count : Nat) :
    ((List.range count).flatMap fun i => [f (i * 2), f (i * 2 + 1)]) =
      (List.range (count * 2)).map f := by
  induction count with
  | zero => rfl
  | succ count ih =>
      rw [List.range_succ, List.flatMap_append, ih, Nat.succ_mul, List.range_succ, List.range_succ,
        List.map_append, List.map_append, List.append_assoc]
      rfl

/-- The words that a file of the right length gives. -/
def loadedWords (content : List (BitVec 8)) : Vector (BitVec 16) nvramWords :=
  Vector.ofFn fun i =>
    (content.getD (i * 2 + 1) 0).setWidth 16 <<< 8 ||| (content.getD (i * 2) 0).setWidth 16

theorem nvramLoadFile_eq (n : Nvram) {content : List (BitVec 8)} (full : content.length = 128) :
    nvramLoadFile n (some content) = (0, { n with mem := loadedWords content }) := by
  have all : content.take (nvramWords * 2) = content :=
    List.take_of_length_le (by rw [full]; decide)
  simp only [nvramLoadFile, all]
  rw [if_neg (by rw [full]; decide)]
  rfl

variable {content : List (BitVec 8)}

theorem loadedWords_getD {i : Nat} (inside : i < nvramWords) :
    (loadedWords content).getD i 0 =
      (content.getD (i * 2 + 1) 0).setWidth 16 <<< 8 ||| (content.getD (i * 2) 0).setWidth 16 := by
  simp [loadedWords, Vector.getD, inside]

theorem lowByte_loaded {i : Nat} (inside : i < nvramWords) :
    ((loadedWords content).getD i 0).setWidth 8 = content.getD (i * 2) 0 := by
  rw [loadedWords_getD inside]
  ext k bound
  simp

theorem highByte_loaded {i : Nat} (inside : i < nvramWords) :
    ((loadedWords content).getD i 0 >>> 8).setWidth 8 = content.getD (i * 2 + 1) 0 := by
  rw [loadedWords_getD inside]
  ext k bound
  have high : 8 + k < 16 := by omega
  simp [high, show k < 16 by omega, BitVec.getLsbD_eq_getElem bound]

/-- Saving what has been loaded. -/
theorem nvramSaveFile_loaded (n : Nvram) (full : content.length = 128) :
    nvramSaveFile { n with mem := loadedWords content } = content := by
  have words : (List.range nvramWords).flatMap (fun i =>
      [((loadedWords content).getD i 0).setWidth 8,
        ((loadedWords content).getD i 0 >>> 8).setWidth 8]) =
      (List.range nvramWords).flatMap fun i =>
        [content.getD (i * 2) 0, content.getD (i * 2 + 1) 0] := by
    refine List.flatMap_congr fun i mem => ?_
    rw [lowByte_loaded (List.mem_range.mp mem), highByte_loaded (List.mem_range.mp mem)]
  rw [nvramSaveFile, words, flatMap_pairs (content.getD · 0)]
  apply List.ext_getElem (by rw [List.length_map, List.length_range, full]; rfl)
  intro i _ inside
  simp [inside]

/-- In the mirror the bytes of a word are in each other's places. -/
theorem mirror_loaded {i : Nat} (inside : i < 128) :
    mirror (loadedWords content) i = content.getD (swapPair i) 0 := by
  have word : i / 2 < nvramWords := by
    unfold nvramWords
    omega
  rw [mirror, swapPair]
  split
  · rw [highByte_loaded word, show i / 2 * 2 + 1 = i + 1 by omega]
  · rw [lowByte_loaded word, show i / 2 * 2 = i - 1 by omega]

/-- A field of the file, seen in the mirror. -/
theorem mirrored_eq {image : Image} {off count : Nat} {values : List (BitVec 8)}
    (inside : off + count ≤ 128)
    (stored : gatherAt image (pairSwapped off count) = values.map some) :
    mirrored (loadedWords image.toList) off count = values := by
  have shown : (mirrored (loadedWords image.toList) off count).map some = values.map some := by
    rw [← stored, mirrored, gatherAt, pairSwapped, List.map_map, List.map_map]
    refine List.map_congr_left fun k mem => ?_
    have small := List.mem_range.mp mem
    have swapped : swapPair (off + k) < 128 := by
      unfold swapPair
      split <;> omega
    simp only [Function.comp_apply, mirror_loaded (show off + k < 128 by omega)]
    rw [Vector.getElem?_eq_getElem swapped]
    simp [swapped]
  exact List.map_injective_iff.mpr (Option.some_injective _) shown

/-- What the monitor and the interface setup find in the mirror. -/
structure MirrorShows (a : Addresses) (mem : Vector (BitVec 16) nvramWords) : Prop where
  mac : mirrored mem 2 6 = a.mac.toList
  ip : mirrored mem 8 4 = (a.ip.getD blankIp).toList
  mask : structField mem 11 = (a.mask.getD blankIp).toList
  gateway : structField mem 15 = (a.gateway.getD blankIp).toList
  broadcast : structField mem 19 = (a.broadcastField.getD blankIp).toList
  server : mirrored mem 106 4 = (a.server.getD blankIp).toList

theorem Laid.mirror {a : Addresses} {image : Image} (laid : Laid a image) :
    MirrorShows a (loadedWords image.toList) where
  mac := mirrored_eq (by decide) laid.mac
  ip := mirrored_eq (by decide) laid.ip
  mask := mirrored_eq (by decide) laid.mask
  gateway := mirrored_eq (by decide) laid.gateway
  broadcast := mirrored_eq (by decide) laid.broadcast
  server := mirrored_eq (by decide) laid.server

/-- The image of well-formed addresses holds them all, each where the mirror shows it, and goes
through the emulator unchanged. -/
theorem mknvram_layout (random : Mac) (args : Args) {a : Addresses}
    (parsed : args.addresses random = some a) :
    ∃ image, mknvram random args = some image ∧ Laid a image ∧
      ∀ n, ∃ n', nvramLoadFile n (some image.toList) = (0, n') ∧ MirrorShows a n'.mem ∧
        nvramSaveFile n' = image.toList := by
  have full : a.image.toList.length = 128 := Vector.length_toList
  refine ⟨a.image, by rw [mknvram_eq, parsed]; rfl, laid_image a, fun n => ?_⟩
  exact ⟨_, nvramLoadFile_eq n full, (laid_image a).mirror, nvramSaveFile_loaded n full⟩

/-- The static configuration of the script's own example. -/
def exampleArgs : Args where
  mac := "02:00:5e:de:ad:01".toList
  ip := some "192.168.1.65".toList
  mask := some "255.255.255.0".toList
  gateway := some "192.168.1.1".toList
  server := some "192.168.1.15".toList
  broadcast := none

def exampleAddresses : Addresses where
  mac := #v[0x02#8, 0x00#8, 0x5E#8, 0xDE#8, 0xAD#8, 0x01#8]
  ip := some #v[192#8, 168#8, 1#8, 65#8]
  mask := some #v[255#8, 255#8, 255#8, 0#8]
  gateway := some #v[192#8, 168#8, 1#8, 1#8]
  broadcast := none
  server := some #v[192#8, 168#8, 1#8, 15#8]

theorem mknvram_layout_example :
    ∃ image, mknvram exampleAddresses.mac exampleArgs = some image ∧ Laid exampleAddresses image ∧
      ∀ n, ∃ n', nvramLoadFile n (some image.toList) = (0, n') ∧
        MirrorShows exampleAddresses n'.mem ∧ nvramSaveFile n' = image.toList :=
  mknvram_layout exampleAddresses.mac exampleArgs (by decide +kernel)

end Reading

end Ncd15.Firmware
