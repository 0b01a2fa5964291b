import Troe.Lib.Checked

/-!
# Page-aligned physical ranges (`troe-memory::range`)
-/

namespace Troe.Memory

open Lib

/-- Size of one base physical page. -/
def basePageSize : ℕ := 4096

def maxFirmwareRegions : ℕ := 256
def maxReservations : ℕ := 64
def maxNormalizedRegions : ℕ := 512
def maxMappings : ℕ := 512

/-- Failures produced while validating and normalizing physical memory. -/
inductive MemoryMapError where
  | unaligned
  | empty
  | overflow
  | firmwareOverlap
  | reservationUnmapped
  | tooManyRegions
deriving DecidableEq

/-- The checks of `from_pages`, which physical and virtual ranges share: the end of the range. -/
def endOfPages {ε : Type} (unaligned empty overflow : ε) (start pageCount : ℕ) : Except ε ℕ := do
  rejectIf (start % basePageSize ≠ 0) unaligned
  rejectIf (pageCount = 0) empty
  let byteCount ← okOr (checkedMul 64 pageCount basePageSize) overflow
  okOr (checkedAdd 64 start byteCount) overflow

theorem endOfPages_eq_ok {ε : Type} {unaligned empty overflow : ε} {start pageCount finish : ℕ} :
    endOfPages unaligned empty overflow start pageCount = .ok finish ↔
      start % basePageSize = 0 ∧ pageCount ≠ 0 ∧ start + pageCount * basePageSize < 2 ^ 64 ∧
        finish = start + pageCount * basePageSize := by
  unfold endOfPages
  simp only [ok_rules, not_not]
  constructor
  · rintro ⟨-, haligned, -, hcount, bytes, ⟨-, rfl⟩, hfit, rfl⟩
    exact ⟨haligned, hcount, hfit, rfl⟩
  · rintro ⟨haligned, hcount, hfit, rfl⟩
    exact ⟨(), haligned, (), hcount, _, ⟨by omega, rfl⟩, hfit, rfl⟩

/-- A half-open physical address range. Its fields are private to the crate, which outside the
construction of maps builds ranges with `fromPages` only. -/
structure PhysicalRange where
  start : ℕ
  finish : ℕ
deriving DecidableEq

namespace PhysicalRange

/-- `PhysicalRange::from_pages`. -/
def fromPages (start pageCount : ℕ) : Except MemoryMapError PhysicalRange := do
  let finish ← endOfPages .unaligned .empty .overflow start pageCount
  return { start, finish }

/-- `PhysicalRange::byte_count`. -/
def byteCount (range : PhysicalRange) : ℕ := range.finish - range.start

/-- `PhysicalRange::page_count`. -/
def pageCount (range : PhysicalRange) : ℕ := range.byteCount / basePageSize

/-- `PhysicalRange::contains`. -/
def contains (range : PhysicalRange) (address : ℕ) : Bool :=
  range.start ≤ address && address < range.finish

/-- What every range of the crate satisfies. -/
structure Valid (range : PhysicalRange) : Prop where
  start_aligned : basePageSize ∣ range.start
  finish_aligned : basePageSize ∣ range.finish
  start_lt : range.start < range.finish
  finish_lt : range.finish < 2 ^ 64

theorem pageCount_mk (start pages : ℕ) :
    (PhysicalRange.mk start (start + pages * basePageSize)).pageCount = pages := by
  rw [pageCount, byteCount, Nat.add_sub_cancel_left, Nat.mul_div_cancel _ (by decide)]

theorem Valid.byteCount_eq {range : PhysicalRange} (h : range.Valid) :
    range.byteCount = range.pageCount * basePageSize :=
  (Nat.div_mul_cancel (Nat.dvd_sub h.finish_aligned h.start_aligned)).symm

theorem Valid.finish_eq {range : PhysicalRange} (h : range.Valid) :
    range.finish = range.start + range.pageCount * basePageSize := by
  rw [← h.byteCount_eq, byteCount, Nat.add_sub_cancel' (Nat.le_of_lt h.start_lt)]

theorem fromPages_eq_ok {start pageCount : ℕ} {range : PhysicalRange} :
    fromPages start pageCount = .ok range ↔
      start % basePageSize = 0 ∧ pageCount ≠ 0 ∧ start + pageCount * basePageSize < 2 ^ 64 ∧
        range = { start, finish := start + pageCount * basePageSize } := by
  simp only [fromPages, ok_rules, endOfPages_eq_ok, pure, Except.pure, Except.ok.injEq]
  constructor
  · rintro ⟨finish, ⟨haligned, hcount, hfit, rfl⟩, rfl⟩
    exact ⟨haligned, hcount, hfit, rfl⟩
  · rintro ⟨haligned, hcount, hfit, rfl⟩
    exact ⟨_, ⟨haligned, hcount, hfit, rfl⟩, rfl⟩

/-- A range is returned by `fromPages` exactly when it is valid. -/
theorem valid_iff_fromPages (range : PhysicalRange) :
    range.Valid ↔ ∃ start pageCount, fromPages start pageCount = .ok range := by
  constructor
  · rintro ⟨⟨s, hs⟩, ⟨f, hf⟩, hlt, hbound⟩
    refine ⟨range.start, f - s, fromPages_eq_ok.mpr ?_⟩
    obtain ⟨start, finish⟩ := range
    simp only [basePageSize] at *
    subst hs hf
    refine ⟨Nat.mul_mod_right _ _, by omega, by omega, ?_⟩
    congr 1
    omega
  · rintro ⟨start, pageCount, h⟩
    obtain ⟨haligned, hcount, hfit, rfl⟩ := fromPages_eq_ok.mp h
    have hstart : basePageSize ∣ start := Nat.dvd_of_mod_eq_zero haligned
    refine ⟨hstart, (Nat.dvd_add_right hstart).mpr (Nat.dvd_mul_left _ _), ?_, hfit⟩
    simp only [basePageSize] at *
    omega

end PhysicalRange

end Troe.Memory
