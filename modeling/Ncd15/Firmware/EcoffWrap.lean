import Ncd15.Library.StructPack

/-!
# The ECOFF wrapper of flat images

`build` of `ncd15-ecoff-wrap`: a file header, an optional header and six
section headers, padded to a multiple of 16, in front of the raw code.  Only
the `.text` section is not empty.
-/

namespace Ncd15.Firmware

open Ncd15.Library

def ecoffFileMagic : Nat := 0x0160
def aoutMagic : Nat := 0x0107
def vstamp : Nat := 523
def fFlags : Nat := 0x0007

def stypText : Nat := 0x0020
def stypData : Nat := 0x0040
def stypBss : Nat := 0x0080
def stypRdata : Nat := 0x0100
def stypSdata : Nat := 0x0200
def stypSbss : Nat := 0x0400

def fileHdrSz : Nat := 20
def optHdrSz : Nat := 0x38
def secHdrSz : Nat := 40
def numScns : Nat := 6

def gprmaskDefault : Nat := 0xFFFFFFFE
def gpValueDefault : Nat := 0x8EEDE880

/-- `name.encode('ascii')[:8].ljust(8, b'\x00')`. -/
def sectionName (name : String) : List (BitVec 8) :=
  ((name.toList.map fun c => BitVec.ofNat 8 c.toNat).take 8).rightpad 8 0

def scnhdr (name : String) (paddr vaddr size scnptr flags lnnoptr : Nat) :
    Option (List (BitVec 8)) := do
  let fields ← structPack
    [.I paddr, .I vaddr, .I size, .I scnptr, .I 0, .I lnnoptr, .H 0, .H 0, .I flags]
  return sectionName name ++ fields

/-- `build`.  `time` is what `time.time()` returns; `none` is the exception of
a pack that does not fit or of a failing assertion. -/
def build (raw : List (BitVec 8)) (load entry time : Nat) : Option (List (BitVec 8)) := do
  let hdrTotal := fileHdrSz + optHdrSz + secHdrSz * numScns
  let textSz := raw.length
  let textOff := (hdrTotal + 15) / 16 * 16
  let padBytes := textOff - hdrTotal
  let fileHdr ← structPack
    [.H ecoffFileMagic, .H numScns, .I (time % 2 ^ 32), .I 0, .I 0, .H optHdrSz, .H fFlags]
  guard (fileHdr.length = fileHdrSz)
  let textEnd := load + textSz
  let optHdr ← structPack
    [.H aoutMagic, .H vstamp, .I textSz, .I 0, .I 0, .I entry, .I load, .I textEnd,
      .I textEnd, .I gprmaskDefault, .I 0, .I 0, .I 0, .I 0, .I gpValueDefault]
  guard (optHdr.length = optHdrSz)
  let eofMarker := textOff + textSz
  let secText ← scnhdr ".text" load load textSz textOff stypText 0
  let secRdata ← scnhdr ".rdata" textEnd textEnd 0 0 stypRdata 0
  let secData ← scnhdr ".data" textEnd textEnd 0 0 stypData 0
  let secSdata ← scnhdr ".sdata" textEnd textEnd 0 0 stypSdata eofMarker
  let secSbss ← scnhdr ".sbss" textEnd textEnd 0 0 stypSbss eofMarker
  let secBss ← scnhdr ".bss" textEnd textEnd 0 0 stypBss 0
  return fileHdr ++ optHdr ++
    (secText ++ secRdata ++ secData ++ secSdata ++ secSbss ++ secBss) ++
    List.replicate padBytes 0 ++ raw

/-- The items of a section header, its name first. -/
def scnhdrFields (name : String) (paddr vaddr size scnptr flags lnnoptr : Nat) :
    List PackField :=
  [.s (sectionName name), .I paddr, .I vaddr, .I size, .I scnptr, .I 0, .I lnnoptr,
    .H 0, .H 0, .I flags]

/-- Everything in front of the raw code, item by item. -/
def headerFields (size load entry time : Nat) : List PackField :=
  [.H ecoffFileMagic, .H numScns, .I (time % 2 ^ 32), .I 0, .I 0, .H optHdrSz, .H fFlags] ++
    ([.H aoutMagic, .H vstamp, .I size, .I 0, .I 0, .I entry, .I load, .I (load + size),
      .I (load + size), .I gprmaskDefault, .I 0, .I 0, .I 0, .I 0, .I gpValueDefault] ++
    (scnhdrFields ".text" load load size 0x140 stypText 0 ++
    (scnhdrFields ".rdata" (load + size) (load + size) 0 0 stypRdata 0 ++
    (scnhdrFields ".data" (load + size) (load + size) 0 0 stypData 0 ++
    (scnhdrFields ".sdata" (load + size) (load + size) 0 0 stypSdata (0x140 + size) ++
    (scnhdrFields ".sbss" (load + size) (load + size) 0 0 stypSbss (0x140 + size) ++
    (scnhdrFields ".bss" (load + size) (load + size) 0 0 stypBss 0 ++
    [.s (List.replicate 4 0)])))))))

theorem scnhdr_of_fits (name : String) {paddr vaddr size scnptr flags lnnoptr : Nat}
    (paddrFits : paddr < 2 ^ 32) (vaddrFits : vaddr < 2 ^ 32) (sizeFits : size < 2 ^ 32)
    (scnptrFits : scnptr < 2 ^ 32) (flagsFits : flags < 2 ^ 32) (lnnoptrFits : lnnoptr < 2 ^ 32) :
    scnhdr name paddr vaddr size scnptr flags lnnoptr =
      some (packed (scnhdrFields name paddr vaddr size scnptr flags lnnoptr)) := by
  unfold scnhdr
  rw [structPack_of_fits (by simp [PackField.fits]; omega)]
  rfl

/-- A file whose text ends below `2 ^ 32` is built: its headers, then the code. -/
theorem build_of_fits {raw : List (BitVec 8)} {load entry : Nat} (time : Nat)
    (entryFits : entry < 2 ^ 32) (endFits : load + raw.length < 2 ^ 32)
    (fileFits : 0x140 + raw.length < 2 ^ 32) :
    build raw load entry time =
      some (packed (headerFields raw.length load entry time) ++ raw) := by
  have flagsFit : stypText < 2 ^ 32 ∧ stypRdata < 2 ^ 32 ∧ stypData < 2 ^ 32 ∧
      stypSdata < 2 ^ 32 ∧ stypSbss < 2 ^ 32 ∧ stypBss < 2 ^ 32 := by decide
  have textOff : (fileHdrSz + optHdrSz + secHdrSz * numScns + 15) / 16 * 16 = 0x140 := rfl
  have padBytes : 0x140 - (fileHdrSz + optHdrSz + secHdrSz * numScns) = 4 := rfl
  unfold build
  simp only [textOff, padBytes]
  rw [structPack_of_fits
      (by simp [PackField.fits, ecoffFileMagic, numScns, optHdrSz, fFlags]; omega),
    structPack_of_fits (by
      simp [PackField.fits, aoutMagic, vstamp, gprmaskDefault, gpValueDefault]; omega),
    scnhdr_of_fits _ (by omega) (by omega) (by omega) (by omega) flagsFit.1 (by omega),
    scnhdr_of_fits _ (by omega) (by omega) (by omega) (by omega) flagsFit.2.1 (by omega),
    scnhdr_of_fits _ (by omega) (by omega) (by omega) (by omega) flagsFit.2.2.1 (by omega),
    scnhdr_of_fits _ (by omega) (by omega) (by omega) (by omega) flagsFit.2.2.2.1 (by omega),
    scnhdr_of_fits _ (by omega) (by omega) (by omega) (by omega) flagsFit.2.2.2.2.1 (by omega),
    scnhdr_of_fits _ (by omega) (by omega) (by omega) (by omega) flagsFit.2.2.2.2.2 (by omega)]
  simp [headerFields, fileHdrSz, optHdrSz, PackField.bytes]

end Ncd15.Firmware
