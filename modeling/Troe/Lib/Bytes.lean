import Mathlib.Tactic.Ring
import Troe.Lib.Checked

/-!
# Byte strings and fixed-width integer fields

Reading and overwriting slices of a byte string, and little-endian fields.
-/

namespace Troe.Lib

variable {offset length : ℕ}

/-- A byte string. -/
abbrev Bytes := List UInt8

/-! ## Slices -/

/-- The `length` bytes from `offset` on, when they are all there. -/
def slice (bytes : Bytes) (offset length : ℕ) : Option Bytes :=
  if offset + length ≤ bytes.length then some ((bytes.drop offset).take length) else none

/-- Overwrite the bytes from `offset` on with `source`. -/
def splice (bytes : Bytes) (offset : ℕ) (source : Bytes) : Bytes :=
  bytes.take offset ++ source ++ bytes.drop (offset + source.length)

variable {bytes : Bytes} {n v offset : ℕ}

theorem slice_eq_some (h : offset + length ≤ bytes.length) :
    slice bytes offset length = some ((bytes.drop offset).take length) :=
  if_pos h

theorem length_of_slice_eq_some {bytes field : Bytes}
    (h : slice bytes offset length = some field) : field.length = length := by
  unfold slice at h
  split at h
  · cases h
    simp only [List.length_take, List.length_drop]
    omega
  · cases h

theorem subset_of_slice_eq_some {bytes field : Bytes}
    (h : slice bytes offset length = some field) : field ⊆ bytes := by
  unfold slice at h
  split at h
  · cases h
    exact List.Subset.trans (List.take_subset _ _) (List.drop_subset _ _)
  · cases h

variable {bytes source : Bytes}

@[simp] theorem length_splice (h : offset + source.length ≤ bytes.length) :
    (splice bytes offset source).length = bytes.length := by
  simp only [splice, List.length_append, List.length_take, List.length_drop]
  omega

/-- Byte by byte, an overwritten string holds the source inside the slice and is unchanged
outside. -/
theorem getElem?_splice (h : offset + source.length ≤ bytes.length) (i : ℕ) :
    (splice bytes offset source)[i]? =
      if offset ≤ i ∧ i < offset + source.length then source[i - offset]? else bytes[i]? := by
  have htake : (bytes.take offset).length = offset := by
    rw [List.length_take]
    omega
  rw [splice, List.append_assoc, List.getElem?_append, htake]
  by_cases hlow : i < offset
  · rw [if_pos hlow, if_neg (by omega), List.getElem?_take_of_lt hlow]
  · rw [if_neg hlow, List.getElem?_append]
    by_cases hmid : i < offset + source.length
    · rw [if_pos (by omega), if_pos (by omega)]
    · rw [if_neg (by omega), if_neg (by omega), List.getElem?_drop]
      congr 1
      omega

/-- The field of a concatenation that starts after `pre`. -/
theorem slice_of_eq_append (pre field post : Bytes) (h : bytes = pre ++ (field ++ post))
    (hoffset : pre.length = offset) (hlength : field.length = length) :
    slice bytes offset length = some field := by
  subst h hoffset hlength
  rw [slice_eq_some (by simp), List.drop_left, List.take_left]

/-- Overwriting the field of a concatenation that starts after `pre`. -/
theorem splice_of_eq_append (pre field post : Bytes) (h : bytes = pre ++ (field ++ post))
    (hoffset : pre.length = offset) (hlength : field.length = source.length) :
    splice bytes offset source = pre ++ (source ++ post) := by
  subst h hoffset
  rw [splice, List.take_left, ← hlength, ← List.drop_drop, List.drop_left, List.drop_left,
    List.append_assoc]

/-! ## Integer fields -/

/-- The `n` low bytes of `v`, least significant first. -/
def leBytes : ℕ → ℕ → Bytes
  | 0, _ => []
  | n + 1, v => UInt8.ofNat v :: leBytes n (v / 256)

/-- The number that little-endian bytes denote. -/
def leValue : Bytes → ℕ
  | [] => 0
  | b :: bytes => b.toNat + 256 * leValue bytes

@[simp] theorem length_leBytes (n v : ℕ) : (leBytes n v).length = n := by
  induction n generalizing v with
  | zero => rfl
  | succ n ih => simp [leBytes, ih]

theorem leValue_leBytes {n v : ℕ} (h : v < 256 ^ n) : leValue (leBytes n v) = v := by
  induction n generalizing v with
  | zero =>
    rw [pow_zero] at h
    simp only [leBytes, leValue]
    omega
  | succ n ih =>
    have hdiv : v / 256 < 256 ^ n := by
      rw [pow_succ] at h
      omega
    simp only [leBytes, leValue, ih hdiv, UInt8.toNat_ofNat']
    omega

theorem leValue_lt (bytes : Bytes) : leValue bytes < 256 ^ bytes.length := by
  induction bytes with
  | nil => simp [leValue]
  | cons b bytes ih =>
    have hb := b.toNat_lt
    simp only [leValue, List.length_cons, pow_succ]
    omega

/-- Read a little-endian field of `n` bytes. -/
def readLe (n : ℕ) (bytes : Bytes) (offset : ℕ) : Option ℕ := (slice bytes offset n).map leValue

/-! ## Chunks -/

/-- The first `count` chunks of `n` bytes. -/
def chunks (n : ℕ) : ℕ → Bytes → List Bytes
  | 0, _ => []
  | count + 1, bytes => bytes.take n :: chunks n count (bytes.drop n)

/-- `chunks_exact`: all whole chunks of `n` bytes. -/
def chunksExact (n : ℕ) (bytes : Bytes) : List Bytes := chunks n (bytes.length / n) bytes

/-! ## Records laid out field after field

A read or an overwrite at an offset skips the fields in front of it and then meets its own field, so
that a chain of overwrites of a zeroed block turns into the concatenation of what was written. -/

section Fields

variable {a b source : Bytes} {offset length : ℕ}

theorem drop_append_right (h : a.length ≤ offset) (b : Bytes) :
    (a ++ b).drop offset = b.drop (offset - a.length) := by
  rw [List.drop_append, List.drop_eq_nil_of_le h, List.nil_append]

theorem slice_append_right (h : a.length ≤ offset) (b : Bytes) :
    slice (a ++ b) offset length = slice b (offset - a.length) length := by
  simp only [slice, List.length_append]
  by_cases hlength : offset + length ≤ a.length + b.length
  · rw [if_pos hlength, if_pos (by omega), drop_append_right h]
  · rw [if_neg hlength, if_neg (by omega)]

theorem slice_append_left (h : a.length = length) (b : Bytes) : slice (a ++ b) 0 length = some a :=
  slice_of_eq_append [] a b rfl rfl h

/-- A read behind the first part is a read of the second. -/
theorem readLe_append_right {n : ℕ} (h : a.length ≤ offset) (b : Bytes) :
    readLe n (a ++ b) offset = readLe n b (offset - a.length) := by
  rw [readLe, slice_append_right h, readLe]

/-- A field is read back. -/
theorem readLe_append_left {n v : ℕ} (h : v < 256 ^ n) (b : Bytes) :
    readLe n (leBytes n v ++ b) 0 = some v := by
  rw [readLe, slice_append_left (length_leBytes n v), Option.map_some, leValue_leBytes h]

theorem splice_append_right (h : a.length ≤ offset) (b source : Bytes) :
    splice (a ++ b) offset source = a ++ splice b (offset - a.length) source := by
  have hend : offset + source.length - a.length = offset - a.length + source.length := by omega
  simp only [splice, List.append_assoc]
  rw [List.take_append, List.drop_append, List.take_of_length_le h,
    List.drop_eq_nil_of_le (by omega), List.nil_append, List.append_assoc, hend]

theorem splice_append_left (h : a.length = source.length) (b : Bytes) :
    splice (a ++ b) 0 source = source ++ b :=
  splice_of_eq_append [] a b rfl rfl h

/-- The bytes between the fields in front and the fields behind. -/
theorem take_drop_append {a b : Bytes} (ha : a.length = offset) (hb : b.length = length)
    (c : Bytes) : ((a ++ (b ++ c)).drop offset).take length = b := by
  rw [List.drop_left' ha, List.take_left' hb]

end Fields

/-- A block of zeros can be cut into fields of any sizes. -/
theorem replicate_eq_flatten {n : ℕ} (sizes : List ℕ) (h : sizes.sum = n) :
    List.replicate n (0 : UInt8) = (sizes.map fun n => List.replicate n 0).flatten := by
  subst h
  induction sizes with
  | nil => rfl
  | cons n sizes ih => rw [List.sum_cons, List.replicate_add, ih, List.map_cons, List.flatten_cons]

/-! ## Big-endian numbers -/

/-- The `n` low bytes of `v`, most significant first. -/
def beBytes (n v : ℕ) : Bytes := (leBytes n v).reverse

/-- The number that big-endian bytes denote. -/
def beValue (bytes : Bytes) : ℕ := leValue bytes.reverse

@[simp] theorem length_beBytes (n v : ℕ) : (beBytes n v).length = n := by
  simp [beBytes]

theorem beValue_beBytes {n v : ℕ} (h : v < 256 ^ n) : beValue (beBytes n v) = v := by
  rw [beValue, beBytes, List.reverse_reverse, leValue_leBytes h]

/-! ## From reads to fields

What was read at an offset stands there: the bytes from that offset on start with the field. A chain
of such facts from offset zero on determines a record. -/

theorem drop_of_slice {bytes field : Bytes} {offset length : ℕ}
    (h : slice bytes offset length = some field) :
    bytes.drop offset = field ++ bytes.drop (offset + length) := by
  unfold slice at h
  split at h
  · cases h
    rw [← List.drop_drop, List.take_append_drop]
  · cases h

theorem leBytes_leValue (bytes : Bytes) : leBytes bytes.length (leValue bytes) = bytes := by
  induction bytes with
  | nil => rfl
  | cons b bytes ih =>
    have hb := b.toNat_lt
    have hdiv : (b.toNat + 256 * leValue bytes) / 256 = leValue bytes := by omega
    have hmod : UInt8.ofNat (b.toNat + 256 * leValue bytes) = b := by
      rw [← UInt8.toNat_inj, UInt8.toNat_ofNat']
      omega
    rw [leValue, List.length_cons, leBytes, hdiv, hmod, ih]

theorem drop_of_readLe (h : readLe n bytes offset = some v) :
    bytes.drop offset = leBytes n v ++ bytes.drop (offset + n) := by
  obtain ⟨field, hfield, rfl⟩ := Option.map_eq_some_iff.mp h
  have hlength := length_of_slice_eq_some hfield
  rw [drop_of_slice hfield, ← hlength, leBytes_leValue]

theorem readLe_lt (h : readLe n bytes offset = some v) : v < 256 ^ n := by
  obtain ⟨field, hfield, rfl⟩ := Option.map_eq_some_iff.mp h
  rw [← length_of_slice_eq_some hfield]
  exact leValue_lt field

end Troe.Lib
