import Mathlib.Order.MinMax
import Troe.Memory.Range
import Troe.Lib.Interval

/-!
# Normalized physical memory maps (`troe-memory::map`)

`build` sorts and coalesces the firmware regions, merges the reservations, checks that they are
covered, and overlays them. The regions it returns are in normal form, and the kind they give to an
address is the one a pointwise reading of the inputs gives.
-/

namespace Troe.Memory

open Lib

/-- Ownership classification needed by the initial physical allocator. -/
inductive RegionKind where
  | usable
  | reserved
deriving DecidableEq

/-- One classified physical address range. -/
structure MemoryRegion where
  range : PhysicalRange
  kind : RegionKind
deriving DecidableEq

/-- Byte accounting over a normalized memory map. -/
structure MemoryMapStats where
  usableBytes : ℕ
  reservedBytes : ℕ
deriving DecidableEq

/-- `MemoryMapStats::total_bytes`, a 64-bit sum. -/
def MemoryMapStats.totalBytes (stats : MemoryMapStats) : ℕ :=
  (stats.usableBytes + stats.reservedBytes) % 2 ^ 64

/-- Sorted, non-overlapping physical regions with explicit reservations applied. -/
structure NormalizedMemoryMap where
  regions : List MemoryRegion
  stats : MemoryMapStats
deriving DecidableEq

/-- `append_region`. -/
def appendRegion (output : List MemoryRegion) (region : MemoryRegion) :
    Except MemoryMapError (List MemoryRegion) :=
  match output.getLast? with
  | some previous =>
    if previous.kind = region.kind ∧ previous.range.finish = region.range.start then
      .ok (output.dropLast ++
        [{ previous with range := { previous.range with finish := region.range.finish } }])
    else if maxNormalizedRegions ≤ output.length then .error .tooManyRegions
    else .ok (output ++ [region])
  | none =>
    if maxNormalizedRegions ≤ output.length then .error .tooManyRegions
    else .ok (output ++ [region])

/-- The loop of `normalize_firmware` over the sorted regions. -/
def normalizeFirmwareLoop : List MemoryRegion → List MemoryRegion →
    Except MemoryMapError (List MemoryRegion)
  | [], normalized => .ok normalized
  | region :: sorted, normalized => do
    rejectIf (∃ previous ∈ normalized.getLast?, region.range.start < previous.range.finish)
      .firmwareOverlap
    let normalized ← appendRegion normalized region
    normalizeFirmwareLoop sorted normalized

/-- `normalize_firmware`. The source's sort leaves the order of regions with one start address open;
`normalizeFirmwareLoop_eq_of_perm` says that it does not matter. -/
def normalizeFirmware (regions : List MemoryRegion) : Except MemoryMapError (List MemoryRegion) :=
  normalizeFirmwareLoop (sortByKey (fun region => region.range.start) regions) []

/-- One step of the loop of `normalize_reservations`. -/
def mergeReservation (normalized : List PhysicalRange) (range : PhysicalRange) :
    List PhysicalRange :=
  match normalized.getLast? with
  | some previous =>
    if range.start ≤ previous.finish then
      normalized.dropLast ++ [{ previous with finish := max previous.finish range.finish }]
    else normalized ++ [range]
  | none => normalized ++ [range]

/-- `normalize_reservations`. -/
def normalizeReservations (reservations : List PhysicalRange) : List PhysicalRange :=
  (sortByKey PhysicalRange.start reservations).foldl mergeReservation []

/-- The loop of `range_is_covered`. -/
def rangeIsCoveredLoop (range : PhysicalRange) : List MemoryRegion → ℕ → Bool
  | [], _ => false
  | region :: regions, cursor =>
    if region.range.finish ≤ cursor then rangeIsCoveredLoop range regions cursor
    else if cursor < region.range.start then false
    else
      let cursor := min region.range.finish range.finish
      if cursor = range.finish then true else rangeIsCoveredLoop range regions cursor

/-- `range_is_covered`. -/
def rangeIsCovered (range : PhysicalRange) (regions : List MemoryRegion) : Bool :=
  rangeIsCoveredLoop range regions range.start

/-- The part of a region before the next reservation keeps its kind. -/
def overlayGap (region : MemoryRegion) (reservation : PhysicalRange) (cursor : ℕ)
    (output : List MemoryRegion) : Except MemoryMapError (List MemoryRegion) :=
  if cursor < reservation.start then
    appendRegion output
      { range := { start := cursor, finish := min reservation.start region.range.finish }
        kind := region.kind }
  else .ok output

/-- The part of a region inside a reservation is reserved. -/
def overlayReserved (region : MemoryRegion) (reservation : PhysicalRange) (cursor : ℕ)
    (output : List MemoryRegion) : Except MemoryMapError (List MemoryRegion × ℕ) :=
  let reservedStart := max cursor reservation.start
  let reservedEnd := min region.range.finish reservation.finish
  if reservedStart < reservedEnd then do
    let output ← appendRegion output
      { range := { start := reservedStart, finish := reservedEnd }, kind := .reserved }
    return (output, reservedEnd)
  else .ok (output, cursor)

/-- The loop of `overlay_region`: the output and the cursor at its end. -/
def overlayLoop (region : MemoryRegion) : List PhysicalRange → ℕ → List MemoryRegion →
    Except MemoryMapError (List MemoryRegion × ℕ)
  | [], cursor, output => .ok (output, cursor)
  | reservation :: reservations, cursor, output =>
    if reservation.finish ≤ cursor ∨ region.range.finish ≤ reservation.start then
      overlayLoop region reservations cursor output
    else do
      let output ← overlayGap region reservation cursor output
      let (output, cursor) ← overlayReserved region reservation cursor output
      if cursor = region.range.finish then return (output, cursor)
      overlayLoop region reservations cursor output

/-- `overlay_region`. -/
def overlayRegion (reservations : List PhysicalRange) (output : List MemoryRegion)
    (region : MemoryRegion) : Except MemoryMapError (List MemoryRegion) := do
  let (output, cursor) ← overlayLoop region reservations region.range.start output
  if cursor < region.range.finish then
    appendRegion output
      { range := { start := cursor, finish := region.range.finish }, kind := region.kind }
  else return output

/-- One step of the loop of `calculate_stats`. -/
def addStats (stats : MemoryMapStats) (region : MemoryRegion) :
    Except MemoryMapError MemoryMapStats :=
  match region.kind with
  | .usable => do
    let bytes ← okOr (checkedAdd 64 stats.usableBytes region.range.byteCount) .overflow
    return { stats with usableBytes := bytes }
  | .reserved => do
    let bytes ← okOr (checkedAdd 64 stats.reservedBytes region.range.byteCount) .overflow
    return { stats with reservedBytes := bytes }

/-- `calculate_stats`. -/
def calculateStats (regions : List MemoryRegion) : Except MemoryMapError MemoryMapStats :=
  regions.foldlM addStats { usableBytes := 0, reservedBytes := 0 }

/-- `NormalizedMemoryMap::build`. -/
def NormalizedMemoryMap.build (firmwareRegions : List MemoryRegion)
    (reservations : List PhysicalRange) : Except MemoryMapError NormalizedMemoryMap := do
  rejectIf (maxFirmwareRegions < firmwareRegions.length ∨ maxReservations < reservations.length)
    .tooManyRegions
  let firmware ← normalizeFirmware firmwareRegions
  let reservations := normalizeReservations reservations
  rejectIf (∃ reservation ∈ reservations, ¬ rangeIsCovered reservation firmware)
    .reservationUnmapped
  let regions ← firmware.foldlM (overlayRegion reservations) []
  let stats ← calculateStats regions
  return { regions, stats }

end Troe.Memory
