import Mathlib.Data.List.Basic

/-!
# Bitmaps in 64-bit words

Bit `i` of a bitmap is bit `i % 64` of its word `i / 64`.
-/

namespace Troe.Lib

/-- The mask of bit `i` in its word. -/
def bitMask (i : ℕ) : BitVec 64 := 1#64 <<< (i % 64)

def testBit (bitmap : List (BitVec 64)) (i : ℕ) : Bool :=
  (bitmap.getD (i / 64) 0 &&& bitMask i) ≠ 0

def setBit (bitmap : List (BitVec 64)) (i : ℕ) : List (BitVec 64) :=
  bitmap.set (i / 64) (bitmap.getD (i / 64) 0 ||| bitMask i)

def clearBit (bitmap : List (BitVec 64)) (i : ℕ) : List (BitVec 64) :=
  bitmap.set (i / 64) (bitmap.getD (i / 64) 0 &&& ~~~ bitMask i)

variable {bitmap : List (BitVec 64)} {i j : ℕ}

theorem getLsbD_bitMask (i k : ℕ) : (bitMask i).getLsbD k = decide (k = i % 64) := by
  have hlt : i % 64 < 64 := Nat.mod_lt _ (by decide)
  simp only [bitMask, BitVec.getLsbD_shiftLeft, BitVec.getLsbD_one]
  by_cases hk : k = i % 64
  · subst hk
    simp [hlt]
  · simp only [hk, decide_false]
    by_cases hle : k < i % 64
    · simp [hle]
    · have : ¬ k - i % 64 = 0 := by omega
      simp [this]

/-- Testing with the mask reads the bit. -/
theorem testBit_eq (bitmap : List (BitVec 64)) (i : ℕ) :
    testBit bitmap i = (bitmap.getD (i / 64) 0).getLsbD (i % 64) := by
  generalize hword : bitmap.getD (i / 64) 0 = word
  rw [testBit, hword]
  cases hbit : word.getLsbD (i % 64) with
  | true =>
    rw [decide_eq_true_iff]
    intro hzero
    have := congrArg (BitVec.getLsbD · (i % 64)) hzero
    simp [getLsbD_bitMask, hbit] at this
  | false =>
    rw [decide_eq_false_iff_not, not_not]
    apply BitVec.eq_of_getLsbD_eq
    intro k hk
    rw [BitVec.getLsbD_and, getLsbD_bitMask]
    by_cases hki : k = i % 64
    · simp [hki, hbit]
    · simp [hki]

@[simp] theorem length_setBit : (setBit bitmap i).length = bitmap.length := List.length_set

@[simp] theorem length_clearBit : (clearBit bitmap i).length = bitmap.length := List.length_set

section

variable (hi : i / 64 < bitmap.length)
include hi

/-- Replacing the word of bit `i` by one that differs from it only in that bit. -/
theorem testBit_set {word : BitVec 64} {b : Bool} (hword : ∀ k < 64, word.getLsbD k
      = if k = i % 64 then b else (bitmap.getD (i / 64) 0).getLsbD k) :
    testBit (bitmap.set (i / 64) word) j = if j = i then b else testBit bitmap j := by
  rw [testBit_eq, testBit_eq]
  by_cases hdiv : j / 64 = i / 64
  · have hmod : j = i ↔ j % 64 = i % 64 := by omega
    rw [hdiv, List.getD_eq_getElem?_getD, List.getElem?_set_self hi, Option.getD_some,
      hword _ (Nat.mod_lt _ (by decide))]
    simp only [hmod]
  · have hne : j ≠ i := fun h => hdiv (by rw [h])
    rw [if_neg hne, List.getD_eq_getElem?_getD, List.getElem?_set_ne (Ne.symm hdiv),
      List.getD_eq_getElem?_getD]

theorem testBit_setBit :
    testBit (setBit bitmap i) j = if j = i then true else testBit bitmap j := by
  apply testBit_set hi
  intro k hk
  rw [BitVec.getLsbD_or, getLsbD_bitMask]
  split <;> simp_all

theorem testBit_clearBit :
    testBit (clearBit bitmap i) j = if j = i then false else testBit bitmap j := by
  apply testBit_set hi
  intro k hk
  rw [BitVec.getLsbD_and, BitVec.getLsbD_not, getLsbD_bitMask]
  split <;> simp_all

end

theorem testBit_replicate_zero (n : ℕ) : testBit (List.replicate n 0) i = false := by
  rw [testBit_eq, List.getD_eq_getElem?_getD, List.getElem?_replicate]
  split <;> simp

end Troe.Lib
