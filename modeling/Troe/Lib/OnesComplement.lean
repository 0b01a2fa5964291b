import Troe.Lib.Bytes

/-!
# One's-complement checksums

The sum of a byte string read as big-endian 16-bit words, the end-around carry that brings a sum
back to sixteen bits, and why a checksum field verifies: the carry keeps the residue modulo
`2 ^ 16 - 1` and sends only zero to zero, and the complement of a sum is its negative there.
-/

namespace Troe.Lib

/-- The sum of the big-endian 16-bit words; a last odd byte is the high byte of a word. -/
def wordSum : Bytes → ℕ
  | [] => 0
  | [b] => 256 * b.toNat
  | hi :: lo :: rest => 256 * hi.toNat + lo.toNat + wordSum rest

/-- Add the carries out of the low sixteen bits back in until there are none. -/
def foldCarry (sum : ℕ) : ℕ :=
  if sum / 65536 = 0 then sum else foldCarry (sum % 65536 + sum / 65536)
termination_by sum
decreasing_by omega

theorem wordSum_append {a : Bytes} (h : a.length % 2 = 0) (b : Bytes) :
    wordSum (a ++ b) = wordSum a + wordSum b := by
  fun_induction wordSum a with
  | case1 => simp
  | case2 => simp at h
  | case3 hi lo rest ih =>
    have hrest : rest.length % 2 = 0 := by
      simp only [List.length_cons] at h
      omega
    rw [List.cons_append, List.cons_append, wordSum]
    omega

theorem wordSum_le (bytes : Bytes) : wordSum bytes ≤ 65535 * bytes.length := by
  fun_induction wordSum bytes with
  | case1 => simp
  | case2 b =>
    have hb := b.toNat_lt
    simp only [List.length_singleton]
    omega
  | case3 hi lo rest ih =>
    have hhi := hi.toNat_lt
    have hlo := lo.toNat_lt
    simp only [List.length_cons]
    omega

theorem wordSum_beBytes {v : ℕ} (h : v < 65536) : wordSum (beBytes 2 v) = v := by
  simp only [beBytes, leBytes, List.reverse_cons, List.reverse_nil, List.nil_append,
    List.cons_append, wordSum, UInt8.toNat_ofNat']
  omega

/-- The residue that a carried sum stands for, with `2 ^ 16 - 1` in the place of zero. -/
theorem foldCarry_eq (sum : ℕ) : foldCarry sum = if sum = 0 then 0 else (sum - 1) % 65535 + 1 := by
  fun_induction foldCarry sum with
  | case1 sum h =>
    split
    · assumption
    · omega
  | case2 sum h ih =>
    rw [ih, if_neg (by omega), if_neg (by omega)]
    omega

theorem foldCarry_le (sum : ℕ) : foldCarry sum ≤ 65535 := by
  rw [foldCarry_eq]
  split <;> omega

/-- A sum together with the complement of its carried value carries to all ones. -/
theorem foldCarry_add_complement (sum : ℕ) : foldCarry (sum + (65535 - foldCarry sum)) = 65535 := by
  simp only [foldCarry_eq]
  by_cases h : sum = 0
  · simp [h]
  · rw [if_neg h, if_neg (by omega)]
    omega

/-- All ones may stand for a complement that is zero. -/
theorem foldCarry_add_ones {sum : ℕ} (h : foldCarry sum = 65535) :
    foldCarry (sum + 65535) = 65535 := by
  rw [foldCarry_eq] at h ⊢
  split at h
  · omega
  · rw [if_neg (by omega)]
    omega

end Troe.Lib
