import Troe.Lib.Bytes

/-!
# Reflected CRC-32 (`troe-checksum`)

The bitwise CRC the container formats share, with the checksum field optionally read as zero.
-/

namespace Troe.Checksum

open Lib

/-- Width of an encoded checksum field. -/
def checksumBytes : ℕ := 4

/-- One of the eight shift steps of a byte. -/
def crc32Bit (polynomial crc : BitVec 32) : BitVec 32 :=
  let mask := 0#32 - (crc &&& 1#32)
  (crc >>> 1) ^^^ (polynomial &&& mask)

/-- Fold one byte into a reflected CRC. -/
def crc32Byte (polynomial crc : BitVec 32) (byte : UInt8) : BitVec 32 :=
  (crc32Bit polynomial)^[8] (crc ^^^ BitVec.ofNat 32 byte.toNat)

/-- Whether the byte at `index` is read as zero. -/
def masked (zeroOffset : Option ℕ) (index : ℕ) : Bool :=
  match zeroOffset with
  | some offset => offset ≤ index && index < min (offset + checksumBytes) (2 ^ 64 - 1)
  | none => false

/-- The loop of `crc32_inner` from byte `index` on. -/
def crc32Loop (zeroOffset : Option ℕ) : Bytes → ℕ → BitVec 32 → BitVec 32
  | [], _, crc => crc
  | byte :: bytes, index, crc =>
    let byte := if masked zeroOffset index then 0 else byte
    crc32Loop zeroOffset bytes (index + 1) (crc32Byte 0xedb88320#32 crc byte)

/-- `crc32_inner`. -/
def crc32Inner (bytes : Bytes) (zeroOffset : Option ℕ) : BitVec 32 :=
  ~~~ crc32Loop zeroOffset bytes 0 (BitVec.allOnes 32)

/-- Reflected CRC-32 over the complete input. -/
def crc32 (bytes : Bytes) : BitVec 32 := crc32Inner bytes none

/-- Reflected CRC-32 with the four-byte checksum field at `offset` read as zero. -/
def crc32WithZeroedField (bytes : Bytes) (offset : ℕ) : BitVec 32 := crc32Inner bytes (some offset)

/-- The loop only reads the bytes that are not masked. -/
theorem crc32Loop_congr {zeroOffset : Option ℕ} {bytes bytes' : Bytes} {index : ℕ}
    (hlength : bytes.length = bytes'.length)
    (h : ∀ i, masked zeroOffset (index + i) = false → bytes[i]? = bytes'[i]?) (crc : BitVec 32) :
    crc32Loop zeroOffset bytes index crc = crc32Loop zeroOffset bytes' index crc := by
  induction bytes generalizing bytes' index crc with
  | nil =>
    obtain rfl : bytes' = [] := List.eq_nil_of_length_eq_zero hlength.symm
    rfl
  | cons b bytes ih =>
    obtain _ | ⟨b', bytes'⟩ := bytes'
    · simp at hlength
    have hhead : (if masked zeroOffset index then 0 else b)
        = if masked zeroOffset index then 0 else b' := by
      by_cases hm : masked zeroOffset index
      · rw [if_pos hm, if_pos hm]
      · have := h 0 (by simpa using hm)
        simp only [List.getElem?_cons_zero, Option.some.injEq] at this
        rw [this]
    simp only [crc32Loop]
    rw [hhead]
    apply ih (by simpa using hlength)
    intro i hi
    have := h (i + 1) (by rwa [Nat.add_right_comm] at hi)
    simpa using this

/-- Writing the checksum field does not change the checksum. -/
theorem crc32WithZeroedField_splice {bytes field : Bytes} {offset : ℕ}
    (hfield : field.length = 4) (h : offset + 4 ≤ bytes.length) (hlength : bytes.length < 2 ^ 64) :
    crc32WithZeroedField (splice bytes offset field) offset = crc32WithZeroedField bytes offset := by
  unfold crc32WithZeroedField crc32Inner
  congr 1
  have hfit : offset + field.length ≤ bytes.length := by omega
  apply crc32Loop_congr (length_splice hfit)
  intro i hi
  rw [getElem?_splice hfit]
  split
  next hin =>
    -- an unmasked byte of the field could only be the last addressable one
    simp only [masked, checksumBytes, Nat.zero_add, Bool.and_eq_false_iff,
      decide_eq_false_iff_not] at hi
    omega
  · rfl

example : crc32 [0x31, 0x32, 0x33, 0x34, 0x35, 0x36, 0x37, 0x38, 0x39] = 0xcbf43926#32 := by
  decide +kernel

end Troe.Checksum
