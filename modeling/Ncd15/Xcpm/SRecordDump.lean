import Ncd15.Library.Sextets
import Ncd15.Xcpm.SRecordLines

/-!
# Loading what was dumped

`cmd_srec -w` prints a range of memory as S2 records of up to 16 bytes.  Their addresses have
24 bits, so that the loader puts a record back in its place exactly when it starts below 16 MB.
-/

namespace Ncd15.Xcpm

open Ncd15.Library

section Model

/-- What is left behind a chunk. -/
theorem toNat_sub_add {len off chunk : UInt32} (le : chunk ≤ len - off) :
    (len - (off + chunk)).toNat = (len - off).toNat - chunk.toNat := by
  have same : len - (off + chunk) = len - off - chunk := by grind
  rw [same, UInt32.toNat_sub_of_le _ _ le]

/-- `(len - off > 16) ? 16 : (len - off)`. -/
def chunkOf (left : UInt32) : UInt32 := if 16 < left then 16 else left

theorem toNat_chunkOf (left : UInt32) : (chunkOf left).toNat = min left.toNat 16 := by
  rw [chunkOf]
  split
  · have more := UInt32.lt_iff_toNat_lt.mp ‹16 < left›
    exact (Nat.min_eq_right (Nat.le_of_lt more)).symm
  · have less := UInt32.le_iff_toNat_le.mp (UInt32.not_lt.mp ‹¬ 16 < left›)
    exact (Nat.min_eq_left less).symm

/-- What was printed, and `cksum`. -/
structure SrecOut where
  printed : List UInt8
  cksum : UInt8

/-- `srec_putb`. -/
def srecPutb (b : UInt8) (out : SrecOut) : SrecOut where
  printed := out.printed ++ puthex b.toNat 2
  cksum := out.cksum + b

/-- The loop of `cmd_srec` over the bytes of a record, from an address on. -/
def dumpData (src : Flat) : Nat → UInt32 → SrecOut → SrecOut
  | 0, _, out => out
  | left + 1, a, out => dumpData src left (a + 1) (srecPutb (src a) out)

/-- One record of `cmd_srec -w`. -/
def dumpRecord (src : Flat) (a chunk : UInt32) : List UInt8 :=
  let out : SrecOut := { printed := puts (ascii "S2"), cksum := 0 }
  let out := srecPutb (chunk + 4).toUInt8 out
  let out := srecPutb (a >>> 16 &&& 0xFF).toUInt8 out
  let out := srecPutb (a >>> 8 &&& 0xFF).toUInt8 out
  let out := srecPutb (a &&& 0xFF).toUInt8 out
  let out := dumpData src chunk.toNat a out
  out.printed ++ puthex (~~~out.cksum).toNat 2 ++ crlf

/-- `for (u32 off = 0; off < len; )`. -/
def dumpLoop (src : Flat) (addr len off : UInt32) : List UInt8 :=
  if off < len then
    dumpRecord src (addr + off) (chunkOf (len - off)) ++
      dumpLoop src addr len (off + chunkOf (len - off))
  else []
termination_by (len - off).toNat
decreasing_by
  have size := toNat_chunkOf (len - off)
  have apart : (len - off).toNat = len.toNat - off.toNat :=
    UInt32.toNat_sub_of_le _ _ (UInt32.le_of_lt ‹off < len›)
  have more : off.toNat < len.toNat := UInt32.lt_iff_toNat_lt.mp ‹off < len›
  rw [toNat_sub_add (UInt32.le_iff_toNat_le.mpr (by omega))]
  omega

/-- `cmd_srec -w` with its numbers. -/
def srecDump (src : Flat) (addr len : UInt32) : List UInt8 :=
  dumpLoop src addr len 0 ++ puts (ascii "S804000000FB\r\n")

end Model

section Text

variable {a : UInt32} {bytes : List UInt8} {n : Nat}

/-- Bytes as two digits each. -/
def hexText (bytes : List UInt8) : List UInt8 := bytes.flatMap fun b => puthex b.toNat 2

theorem puthex_byte (b : UInt8) :
    puthex b.toNat 2 = [hexDigit (b.toNat >>> 4 &&& 0xF), hexDigit (b.toNat &&& 0xF)] := by
  rw [puthex_eq]
  rfl

theorem hexNibble_digit {v : Nat} (lt : v < 16) : hexNibble (hexDigit v) = some v := by
  revert v
  decide

theorem nibbles_join (b : UInt8) :
    UInt8.ofNat ((b.toNat >>> 4 &&& 0xF) <<< 4 ||| (b.toNat &&& 0xF)) = b := by
  have all : ∀ v < 256,
      UInt8.ofNat ((v >>> 4 &&& 0xF) <<< 4 ||| (v &&& 0xF)) = UInt8.ofNat v := by decide +kernel
  rw [all b.toNat b.toNat_lt, UInt8.ofNat_toNat]

/-- The loader reads back what `puthex` prints. -/
theorem goodBytes_hexText (bytes : List UInt8) : goodBytes (hexText bytes) = bytes := by
  induction bytes with
  | nil => rfl
  | cons b bytes ih =>
      have small (x : Nat) : x &&& 0xF < 16 := Nat.lt_succ_of_le Nat.and_le_right
      have text : hexText (b :: bytes) = hexDigit (b.toNat >>> 4 &&& 0xF) ::
          hexDigit (b.toNat &&& 0xF) :: hexText bytes := by
        rw [hexText, List.flatMap_cons, puthex_byte]
        rfl
      rw [text, goodBytes, hexNibble_digit (small _), hexNibble_digit (small _)]
      dsimp only
      rw [nibbles_join, ih]

theorem length_hexText (bytes : List UInt8) : (hexText bytes).length = 2 * bytes.length := by
  induction bytes with
  | nil => rfl
  | cons b bytes ih =>
      rw [hexText, List.flatMap_cons, puthex_byte, List.length_append, ← hexText, ih,
        List.length_cons, List.length_cons, List.length_cons, List.length_nil]
      omega

theorem plain_hexText (bytes : List UInt8) : Plain (hexText bytes) := by
  have digit : ∀ v < 16, hexDigit v ≠ 13 ∧ hexDigit v ≠ 10 ∧ hexDigit v ≠ 3 := by decide
  have small (x : Nat) : x &&& 0xF < 16 := Nat.lt_succ_of_le Nat.and_le_right
  intro c member
  obtain ⟨b, -, printed⟩ := List.mem_flatMap.mp member
  rw [puthex_byte] at printed
  rcases List.mem_pair.mp printed with rfl | rfl
  · exact digit _ (small _)
  · exact digit _ (small _)

theorem dumpData_eq (src : Flat) (n : Nat) (a : UInt32) (out : SrecOut) :
    dumpData src n a out =
      { printed := out.printed ++ hexText (src.bytesAt a n)
        cksum := sumBytes out.cksum (src.bytesAt a n) } := by
  induction n generalizing a out with
  | zero =>
      rw [dumpData, Flat.bytesAt, hexText, List.flatMap_nil, List.append_nil]
      rfl
  | succ n ih =>
      rw [dumpData, ih, Flat.bytesAt, srecPutb, hexText, hexText, List.flatMap_cons,
        List.append_assoc]
      rfl

/-- The address that a record has. -/
def addrBytes (a : UInt32) : List UInt8 :=
  [(a >>> 16 &&& 0xFF).toUInt8, (a >>> 8 &&& 0xFF).toUInt8, (a &&& 0xFF).toUInt8]

/-- The line of a record. -/
def recordLine (a : UInt32) (data : List UInt8) : List UInt8 :=
  let count := UInt8.ofNat (data.length + 4)
  let front := count :: addrBytes a ++ data
  ascii "S2" ++ hexText (front ++ [~~~sumBytes 0 front])

theorem dumpRecord_eq (src : Flat) (a chunk : UInt32) :
    dumpRecord src a chunk = recordLine a (src.bytesAt a chunk.toNat) ++ crlf := by
  have count : (chunk + 4).toUInt8 = UInt8.ofNat (chunk.toNat + 4) := by
    apply UInt8.toNat.inj
    simp
  have text : puts (ascii "S2") = ascii "S2" := by decide
  rw [dumpRecord, dumpData_eq, text, recordLine, Flat.length_bytesAt, count]
  simp only [srecPutb, hexText, addrBytes, sumBytes, List.flatMap_cons, List.flatMap_append,
    List.cons_append, List.nil_append, List.flatMap_nil, List.append_nil, List.foldl_cons,
    List.append_assoc]

/-- A record's line is read as its bytes. -/
theorem goodBytes_recordLine (a : UInt32) (bytes : List UInt8) :
    goodBytes ((recordLine a bytes).drop 2) =
      UInt8.ofNat (bytes.length + 4) :: (addrBytes a ++ bytes ++
        [~~~sumBytes 0 (UInt8.ofNat (bytes.length + 4) :: addrBytes a ++ bytes)]) := by
  have front : (ascii "S2").length = 2 := rfl
  rw [recordLine, List.drop_left' front, goodBytes_hexText]
  rfl

theorem toNat_byte (a k : UInt32) (small : k.toNat < 32) :
    (a >>> k &&& 0xFF).toUInt8.toNat = a.toNat / 2 ^ k.toNat % 256 := by
  have mask : (a >>> k).toNat &&& 255 = (a >>> k).toNat % 256 :=
    Nat.and_two_pow_sub_one_eq_mod _ 8
  rw [UInt32.toNat_toUInt8, UInt32.toNat_and]
  change ((a >>> k).toNat &&& 255) % 2 ^ 8 = _
  rw [mask, UInt32.toNat_shiftRight, Nat.mod_eq_of_lt small, Nat.shiftRight_eq_div_pow,
    Nat.mod_mod]

theorem toNat_join {a : UInt32} (b : UInt8) (small : a.toNat < 2 ^ 24) :
    (a <<< 8 ||| b.toUInt32).toNat = a.toNat * 256 + b.toNat := by
  have byte : b.toNat < 2 ^ 8 := b.toNat_lt
  rw [UInt32.toNat_or, UInt32.toNat_shiftLeft, UInt8.toNat_toUInt32]
  change a.toNat <<< 8 % 2 ^ 32 ||| b.toNat = _
  have joined : a.toNat <<< 8 ||| b.toNat = a.toNat * 2 ^ 8 + b.toNat := Sextets.or_eq_add byte
  rw [Nat.mod_eq_of_lt (by rw [Nat.shiftLeft_eq]; omega)]
  omega

theorem toNat_low (a : UInt32) : (a &&& 0xFFFFFF).toNat = a.toNat % 2 ^ 24 := by
  rw [UInt32.toNat_and]
  exact Nat.and_two_pow_sub_one_eq_mod _ 24

/-- The loader's address is what is left of it below 16 MB. -/
theorem joinBytes_addrBytes (a : UInt32) : joinBytes 0 (addrBytes a) = a &&& 0xFFFFFF := by
  have zero : (0 : UInt32).toNat = 0 := rfl
  have high : (a >>> 16 &&& 0xFF).toUInt8.toNat = a.toNat / 65536 % 256 :=
    toNat_byte a 16 (by decide)
  have middle : (a >>> 8 &&& 0xFF).toUInt8.toNat = a.toNat / 256 % 256 :=
    toNat_byte a 8 (by decide)
  have low : (a &&& 0xFF).toUInt8.toNat = a.toNat % 256 := by
    have whole : a >>> 0 = a := by simp
    have last := toNat_byte a 0 (by decide)
    rw [whole] at last
    rw [last, zero, Nat.pow_zero, Nat.div_one]
  have one := toNat_join (a := 0) (a >>> 16 &&& 0xFF).toUInt8 (by decide)
  have two := toNat_join (a >>> 8 &&& 0xFF).toUInt8
    (by rw [one, high, zero]; omega)
  have three := toNat_join (a &&& 0xFF).toUInt8
    (by rw [two, one, high, middle, zero]; omega)
  apply UInt32.toNat.inj
  rw [addrBytes, joinBytes, List.foldl_cons, List.foldl_cons, List.foldl_cons, List.foldl_nil,
    three, two, one, high, middle, low, zero, toNat_low]
  omega

/-- The loader starts its checksum with the same bytes as the dumper. -/
theorem headSum_addrBytes (count : UInt8) (a : UInt32) :
    headSum count (a &&& 0xFFFFFF) = sumBytes 0 (count :: addrBytes a) := by
  have part (k : UInt32) (small : k.toNat < 32) {x : UInt8}
      (same : x.toNat = a.toNat % 2 ^ 24 / 2 ^ k.toNat % 256) :
      ((a &&& 0xFFFFFF) >>> k &&& 0xFF).toUInt8 = x := by
    apply UInt8.toNat.inj
    rw [toNat_byte _ k small, toNat_low, same]
  have top : ((a &&& 0xFFFFFF) >>> 24 &&& 0xFF).toUInt8 = 0 := by
    apply part 24 (by decide)
    change 0 = a.toNat % 2 ^ 24 / 2 ^ 24 % 256
    omega
  have high : ((a &&& 0xFFFFFF) >>> 16 &&& 0xFF).toUInt8 = (a >>> 16 &&& 0xFF).toUInt8 := by
    apply part 16 (by decide)
    rw [toNat_byte a 16 (by decide)]
    change a.toNat / 2 ^ 16 % 256 = a.toNat % 2 ^ 24 / 2 ^ 16 % 256
    omega
  have middle : ((a &&& 0xFFFFFF) >>> 8 &&& 0xFF).toUInt8 = (a >>> 8 &&& 0xFF).toUInt8 := by
    apply part 8 (by decide)
    rw [toNat_byte a 8 (by decide)]
    change a.toNat / 2 ^ 8 % 256 = a.toNat % 2 ^ 24 / 2 ^ 8 % 256
    omega
  have low : (a &&& 0xFFFFFF) &&& 0xFF = a &&& 0xFF := by
    rw [UInt32.and_assoc]
    rfl
  rw [headSum, top, high, middle, low, UInt8.add_zero]
  simp [sumBytes, addrBytes]

end Text

section Loading

variable {a : UInt32} {bytes : List UInt8} {s : SrecState}

/-- The loader takes a record that was dumped, and has nothing to say about it. -/
theorem loadLine_record (line : HasLine s (recordLine a bytes)) (few : bytes.length ≤ 16) :
    loadLine s =
      some (.inl (), { s with mem := s.mem.putAll (a &&& 0xFFFFFF) bytes }) := by
  have read := goodBytes_recordLine a bytes
  have size : (UInt8.ofNat (bytes.length + 4)).toNat = bytes.length + 4 := by
    rw [UInt8.toNat_ofNat', Nat.mod_eq_of_lt (by omega)]
  have length : 4 ≤ (recordLine a bytes).length := by
    have whole := goodBytes_length ((recordLine a bytes).drop 2)
    rw [read, List.length_drop, List.length_cons] at whole
    omega
  have found : byteOf ((recordLine a bytes).drop 2) =
      some (UInt8.ofNat (bytes.length + 4)) := by
    rw [byteOf_eq_head, read, List.head?_cons]
  have behind : goodBytes ((recordLine a bytes).drop 4) = addrBytes a ++ bytes ++
      [~~~sumBytes 0 (UInt8.ofNat (bytes.length + 4) :: addrBytes a ++ bytes)] := by
    have more := (goodBytes_some found).1
    rw [read, List.drop_drop] at more
    exact (List.cons.inj more).2.symm
  have first := line.lineAt_run (by decide : 0 < 256)
  rw [line.chars 0 (by omega)] at first
  have second := line.lineAt_run (by decide : 1 < 256)
  rw [line.chars 1 (by omega)] at second
  have pos : ¬ UInt8.ofNat (bytes.length + 4) < 1 := by
    rw [UInt8.lt_iff_toNat_lt, size]
    change ¬ bytes.length + 4 < 1
    omega
  have width : addrLen 50 / 2 = 3 := rfl
  have three : (addrBytes a).length = 3 := rfl
  have room : (UInt8.ofNat (bytes.length + 4)).toNat - 3 - 1 = bytes.length := by
    rw [size]
    omega
  obtain ⟨printed, run, quiet⟩ := line.loadRecord_run
    (UInt8.ofNat (bytes.length + 4)) length (by decide : addrLen 50 ≠ 0)
    (by rw [behind, width]; simp [addrBytes])
  rw [behind, width, room, List.append_assoc, List.take_left' three, List.drop_left' three,
    joinBytes_addrBytes, List.take_left] at run
  rw [behind, width, room, List.append_assoc, List.drop_left' three, List.take_left' three,
    joinBytes_addrBytes, List.take_left, List.getElem?_append_right (Nat.le_refl _), Nat.sub_self,
    headSum_addrBytes] at quiet
  have silent : printed = [] := by
    have joined : sumBytes (sumBytes 0 (UInt8.ofNat (bytes.length + 4) :: addrBytes a)) bytes =
        sumBytes 0 (UInt8.ofNat (bytes.length + 4) :: addrBytes a ++ bytes) :=
      List.foldl_append.symm
    apply quiet
    rw [joined]
    rfl
  rw [silent, List.append_nil] at run
  have lead : (recordLine a bytes).getD 0 0 = 83 := rfl
  have type : (recordLine a bytes).getD 1 0 = 50 := rfl
  rw [lead] at first
  rw [type] at second
  have loaded : dataLine 50 s =
      some ((), { s with mem := s.mem.putAll (a &&& 0xFFFFFF) bytes }) := by
    rw [dataLine, Prog.bind_eq_of_run (line.srecByte_run (by omega) rfl), found]
    dsimp only
    rw [if_neg pos, run]
  rw [loadLine, Prog.bind_eq_of_run first, if_neg (by decide), Prog.bind_eq_of_run second,
    if_neg (by decide), if_neg (by decide), Prog.bind_eq_of_run loaded]
  rfl

theorem plain_recordLine (a : UInt32) (bytes : List UInt8) : Plain (recordLine a bytes) := by
  intro c member
  rcases List.mem_append.mp member with lead | digit
  · rcases List.mem_pair.mp lead with rfl | rfl <;> decide
  · exact plain_hexText _ c digit

theorem length_recordLine (few : bytes.length ≤ 16) : (recordLine a bytes).length ≤ 255 := by
  have front : (ascii "S2").length = 2 := rfl
  rw [recordLine, List.length_append, front, length_hexText]
  simp [addrBytes]
  omega

/-- The loader reads a line of the dump, behind what is left of the end of the line before. -/
theorem loadRound_line {text seps rest : List UInt8} (inside : s.line.inside = true)
    (input : s.input = seps ++ (text ++ crlf ++ rest)) (all : ∀ c ∈ seps, c = 13 ∨ c = 10)
    (plain : Plain text) (nonempty : text ≠ []) (short : text.length ≤ 255) :
    ∃ line, loadRound () s = loadLine { s with input := [13, 10] ++ rest, line := line } ∧
      HasLine { s with input := [13, 10] ++ rest, line := line } text := by
  have ends : text ++ crlf ++ rest = text ++ 13 :: ([13, 10] ++ rest) := by
    rw [List.append_assoc]
    rfl
  rw [ends] at input
  obtain ⟨n, line, read, held⟩ := srecReadLine_run inside input all plain (.inl rfl) nonempty
  rw [List.take_of_length_le short] at held
  exact ⟨line, Prog.bind_eq_of_run read, held⟩

/-- The memory after the records from an address on, each put where the loader finds it. -/
def reloaded (src : Flat) (a : UInt32) (n : Nat) (m : Flat) : Flat :=
  if n = 0 then m
  else
    let k := min n 16
    reloaded src (a + UInt32.ofNat k) (n - k) (m.putAll (a &&& 0xFFFFFF) (src.bytesAt a k))
termination_by n

/-- The loader takes the records one behind the other. -/
theorem records_run (src : Flat) {addr len off : UInt32} {seps tail : List UInt8}
    (le : off ≤ len) (inside : s.line.inside = true)
    (input : s.input = seps ++ (dumpLoop src addr len off ++ tail))
    (all : ∀ c ∈ seps, c = 13 ∨ c = 10) :
    ∃ rounds line seps', line.inside = true ∧ (∀ c ∈ seps', c = 13 ∨ c = 10) ∧
      ∀ more, Prog.loop loadRound (rounds + more) () s =
        Prog.loop loadRound more () { s with
          input := seps' ++ tail
          line := line
          mem := reloaded src (addr + off) (len - off).toNat s.mem } := by
  fun_induction dumpLoop src addr len off generalizing s seps with
  | case1 off more ih =>
      let chunk := chunkOf (len - off)
      have size : chunk.toNat = min (len - off).toNat 16 := toNat_chunkOf _
      have apart : (len - off).toNat = len.toNat - off.toNat := UInt32.toNat_sub_of_le _ _ le
      have lt : off.toNat < len.toNat := UInt32.lt_iff_toNat_lt.mp more
      have fits : chunk ≤ len - off := by
        rw [UInt32.le_iff_toNat_le]
        omega
      have few : (src.bytesAt (addr + off) chunk.toNat).length ≤ 16 := by
        rw [Flat.length_bytesAt]
        omega
      have next : off + chunk ≤ len := by
        have bound := len.toNat_lt
        rw [UInt32.le_iff_toNat_le, UInt32.toNat_add]
        omega
      rw [dumpRecord_eq, List.append_assoc] at input
      obtain ⟨line, round, held⟩ := loadRound_line inside input all (plain_recordLine _ _)
        (by simp [recordLine, ascii]) (length_recordLine few)
      rw [loadLine_record held few] at round
      let s' : SrecState := { s with
        input := [13, 10] ++ (dumpLoop src addr len (off + chunk) ++ tail)
        line := line
        mem := s.mem.putAll ((addr + off) &&& 0xFFFFFF) (src.bytesAt (addr + off) chunk.toNat) }
      have input' : s'.input = [13, 10] ++ (dumpLoop src addr len (off + chunk) ++ tail) := rfl
      have kept : s'.line.inside = true := held.inside
      obtain ⟨rounds, line', seps', inside', all', run⟩ := ih next kept input' (by simp)
      refine ⟨rounds + 1, line', seps', inside', all', fun more => ?_⟩
      have later : addr + (off + chunk) = addr + off + UInt32.ofNat (min (len - off).toNat 16) := by
        rw [← size, UInt32.ofNat_toNat, UInt32.add_assoc]
      have left : (len - (off + chunk)).toNat = (len - off).toNat - min (len - off).toNat 16 := by
        rw [toNat_sub_add fits, size]
      have stored : reloaded src (addr + off) (len - off).toNat s.mem =
          reloaded src (addr + (off + chunk)) (len - (off + chunk)).toNat s'.mem := by
        rw [reloaded, if_neg (by omega : (len - off).toNat ≠ 0), later, left, ← size]
      rw [Nat.add_right_comm, stored]
      exact (Prog.loop_inl round).trans (run more)
  | case2 off done =>
      refine ⟨0, s.line, seps, inside, all, fun more => ?_⟩
      have none : (len - off).toNat = 0 := by
        rw [UInt32.toNat_sub_of_le _ _ le]
        exact Nat.sub_eq_zero_of_le (UInt32.le_iff_toNat_le.mp (UInt32.not_lt.mp done))
      rw [List.nil_append] at input
      rw [Nat.zero_add, none, reloaded, if_pos rfl, ← input]

/-- What the loader says when all goes well. -/
def quietly : List UInt8 :=
  puts (ascii "Send S-records (Ctrl-C to abort):\r\n") ++
    puts (ascii "end record, entry=0x000000\r\n")

/-- The last line of a dump ends the loading. -/
theorem loadLine_end (line : HasLine s (ascii "S804000000FB")) :
    loadLine s = some (.inr (.ended (some 0)),
      { s with printed := s.printed ++ puts (ascii "end record, entry=0x000000\r\n") }) := by
  have first := line.lineAt_run (by decide : 0 < 256)
  rw [line.chars 0 (by decide)] at first
  have second := line.lineAt_run (by decide : 1 < 256)
  rw [line.chars 1 (by decide)] at second
  have addr := line.srecAddr_run 3 0 (by decide : 4 ≤ (ascii "S804000000FB").length) rfl
  have ended : endRecord 56 s = some (.ended (some 0),
      { s with printed := s.printed ++ puts (ascii "end record, entry=0x000000\r\n") }) := by
    rw [endRecord]
    exact Prog.bind_eq_of_run addr
  rw [loadLine, Prog.bind_eq_of_run first, if_neg (by decide), Prog.bind_eq_of_run second,
    if_pos (by decide)]
  exact Prog.bind_eq_of_run ended

/-- The loader takes a whole dump. -/
theorem srecDump_run (src : Flat) (addr len : UInt32) {rest : List UInt8}
    (inside : s.line.inside = true) (input : s.input = srecDump src addr len ++ rest) :
    ∃ rounds s', (∀ more, srecLoad (rounds + more) s = some (.ended (some 0), s')) ∧
      s'.line.inside = true ∧ s'.mem = reloaded src addr len.toNat s.mem ∧
      s'.printed = s.printed ++ quietly := by
  let s₀ : SrecState := { s with
    printed := s.printed ++ puts (ascii "Send S-records (Ctrl-C to abort):\r\n") }
  have text : puts (ascii "S804000000FB\r\n") = ascii "S804000000FB" ++ crlf := by decide
  have input₀ : s₀.input =
      [] ++ (dumpLoop src addr len 0 ++ (ascii "S804000000FB" ++ crlf ++ rest)) := by
    rw [List.nil_append, ← text, ← List.append_assoc]
    exact input
  have inside₀ : s₀.line.inside = true := inside
  obtain ⟨rounds, line, seps, inside', all, run⟩ :=
    records_run src (UInt32.zero_le) inside₀ input₀ (by simp)
  let s₁ : SrecState := { s₀ with
    input := seps ++ (ascii "S804000000FB" ++ crlf ++ rest)
    line := line
    mem := reloaded src (addr + 0) (len - 0).toNat s.mem }
  have input₁ : s₁.input = seps ++ (ascii "S804000000FB" ++ crlf ++ rest) := rfl
  have inside₁ : s₁.line.inside = true := inside'
  obtain ⟨line', round, held⟩ := loadRound_line inside₁ input₁ all
    (plain_of_all (by decide)) (by decide) (by decide)
  rw [loadLine_end held] at round
  let s₂ : SrecState := { s₁ with
    input := [13, 10] ++ rest
    line := line'
    printed := s₁.printed ++ puts (ascii "end record, entry=0x000000\r\n") }
  have whole : s₂.mem = reloaded src addr len.toNat s.mem := by
    change reloaded src (addr + 0) (len - 0).toNat s.mem = _
    rw [UInt32.add_zero, UInt32.sub_zero]
  refine ⟨rounds + 1, s₂, fun more => ?_, held.inside, whole, List.append_assoc _ _ _⟩
  have ends : Prog.loop loadRound (more + 1) () s₁ = some (.ended (some 0), s₂) :=
    Prog.loop_inr round
  have all_rounds := run (more + 1)
  rw [← Nat.add_assoc, Nat.add_right_comm] at all_rounds
  exact all_rounds.trans ends

/-- The last record starts below 16 MB, if there is one. -/
def Below (a : UInt32) (n : Nat) : Prop := n = 0 ∨ a.toNat + (n - 1) / 16 * 16 < 2 ^ 24

/-- Records that start below 16 MB come back to their places. -/
theorem reloaded_below {src : Flat} {a : UInt32} {n : Nat} {m : Flat} (below : Below a n) :
    reloaded src a n m = m.putAll a (src.bytesAt a n) := by
  fun_induction reloaded src a n m with
  | case1 a m => rfl
  | case2 a n m some_left k ih =>
      have size : k = min n 16 := rfl
      have bound : a.toNat + (n - 1) / 16 * 16 < 2 ^ 24 := below.resolve_left some_left
      have low : a &&& 0xFFFFFF = a := by
        apply UInt32.toNat.inj
        rw [toNat_low, Nat.mod_eq_of_lt (by omega)]
      have next : (a + UInt32.ofNat k).toNat = a.toNat + k := by
        rw [UInt32.toNat_add, UInt32.toNat_ofNat', Nat.mod_eq_of_lt (by omega : k < 2 ^ 32),
          Nat.mod_eq_of_lt (by omega)]
      have below' : Below (a + UInt32.ofNat k) (n - k) := by
        rw [Below, next]
        omega
      have split := Flat.bytesAt_append src a k (n - k)
      rw [Nat.add_sub_cancel' (by omega)] at split
      rw [ih below', low, split, Flat.putAll_append, Flat.length_bytesAt]

/-- No record comes to where the last one was, if that is 16 MB or above. -/
theorem reloaded_above {src : Flat} {a x : UInt32} {n : Nat} {m : Flat} (nonempty : n ≠ 0)
    (fits : a.toNat + n ≤ 2 ^ 32) (last : x.toNat = a.toNat + (n - 1) / 16 * 16)
    (above : 2 ^ 24 ≤ x.toNat) : reloaded src a n m x = m x := by
  fun_induction reloaded src a n m with
  | case1 a m => rfl
  | case2 a n m some_left k ih =>
      have size : k = min n 16 := rfl
      have place := toNat_low a
      have behind : (x - (a &&& 0xFFFFFF)).toNat = x.toNat - (a &&& 0xFFFFFF).toNat := by
        apply UInt32.toNat_sub_of_le
        rw [UInt32.le_iff_toNat_le]
        omega
      have kept : m.putAll (a &&& 0xFFFFFF) (src.bytesAt a k) x = m x := by
        rw [Flat.get_putAll m _ x (by rw [Flat.length_bytesAt]; omega), Flat.length_bytesAt,
          behind, place, if_neg (by omega)]
      by_cases more : n - k = 0
      · rw [more, reloaded, if_pos rfl, kept]
      · have next : (a + UInt32.ofNat k).toNat = a.toNat + k := by
          rw [UInt32.toNat_add, UInt32.toNat_ofNat', Nat.mod_eq_of_lt (by omega : k < 2 ^ 32),
            Nat.mod_eq_of_lt (by omega)]
        rw [ih more (by omega) (by omega), kept]

end Loading

section RoundTrip

/-- A range of addresses. -/
structure DumpRange where
  addr : UInt32
  len : UInt32
  fits : addr.toNat + len.toNat ≤ 2 ^ 32

/-- The dump of a range, from any memory, is loaded into any memory: the bytes come to the
addresses they were at, nothing else changes, and no record is complained about. -/
def LoadsBack (r : DumpRange) : Prop :=
  ∀ (src : Flat) (s : SrecState) (rest : List UInt8), s.line.inside = true →
    s.input = srecDump src r.addr r.len ++ rest →
    ∃ rounds s', (∀ more, srecLoad (rounds + more) s = some (.ended (some 0), s')) ∧
      s'.line.inside = true ∧ s'.mem = s.mem.putAll r.addr (src.bytesAt r.addr r.len.toNat) ∧
      s'.printed = s.printed ++ quietly

/-- A last record that starts at 16 MB or above does not come back. -/
theorem not_loadsBack {r : DumpRange} (nonempty : r.len.toNat ≠ 0)
    (above : 2 ^ 24 ≤ r.addr.toNat + (r.len.toNat - 1) / 16 * 16) : ¬ LoadsBack r := by
  intro back
  have fits := r.fits
  -- Zeros are dumped and loaded over ones.
  let s : SrecState :=
    { input := srecDump (fun _ => 0) r.addr r.len
      line := { buf := Buffer.zero, inside := true }
      mem := fun _ => 1
      printed := [] }
  have input : s.input = srecDump (fun _ => 0) r.addr r.len ++ [] := (List.append_nil _).symm
  obtain ⟨rounds, s₁, run, -, stored, -⟩ := back _ s [] rfl input
  obtain ⟨rounds', s₂, run', -, stored', -⟩ := srecDump_run _ _ _ rfl input
  have same : s₁ = s₂ := by
    have first := run rounds'
    rw [Nat.add_comm, run' rounds] at first
    cases first
    rfl
  let last : UInt32 := UInt32.ofNat (r.addr.toNat + (r.len.toNat - 1) / 16 * 16)
  have place : last.toNat = r.addr.toNat + (r.len.toNat - 1) / 16 * 16 := by
    rw [UInt32.toNat_ofNat', Nat.mod_eq_of_lt (by omega)]
  have kept : s₂.mem last = 1 := by
    rw [stored', reloaded_above nonempty fits place (by omega)]
  have inRange : (last - r.addr).toNat < r.len.toNat := by
    rw [UInt32.toNat_sub_of_le _ _ (by rw [UInt32.le_iff_toNat_le]; omega), place]
    omega
  have zero : s₁.mem last = 0 := by
    rw [stored, Flat.get_putAll _ _ _ (by rw [Flat.length_bytesAt]; exact r.len.toNat_lt),
      Flat.length_bytesAt, if_pos inRange, Flat.getD_bytesAt _ _ inRange]
  rw [same, kept] at zero
  cases zero

/-- A dump is loaded back exactly when its last record starts below 16 MB. -/
theorem loadsBack_iff (r : DumpRange) : LoadsBack r ↔ Below r.addr r.len.toNat := by
  constructor
  · intro back
    by_contra not
    rw [Below, not_or, Nat.not_lt] at not
    exact not_loadsBack not.1 not.2 back
  · intro below src s rest inside input
    obtain ⟨rounds, s', run, inside', stored, printed⟩ :=
      srecDump_run src r.addr r.len inside input
    rw [reloaded_below below] at stored
    exact ⟨rounds, s', run, inside', stored, printed⟩

/-- One byte at 16 MB, where the range of S2 records ends. -/
def firstAbove : DumpRange where
  addr := 0x1000000
  len := 1
  fits := by decide

/-- It comes back at address 0. -/
theorem dump_comes_back_elsewhere : ¬ LoadsBack firstAbove :=
  not_loadsBack (by decide) (by decide)

end RoundTrip

end Ncd15.Xcpm
