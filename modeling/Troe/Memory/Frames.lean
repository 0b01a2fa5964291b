import Troe.Memory.Map
import Troe.Lib.Act
import Troe.Lib.Bitmap

/-!
# The frame allocator (`troe-memory::frames`)

Two bitmaps over the usable spans of a normalized map, one for live allocations and one for
permanent reservations. The operations are `Act`s on the allocator: a call that leaves through an
error keeps whatever it wrote before.
-/

namespace Troe.Memory

open Lib

/-- Failures produced by the physical-frame bitmap. -/
inductive FrameAllocationError where
  | overflow
  | metadataExhausted
  | exhausted
  | invalidFrame
  | doubleFree
deriving DecidableEq

/-- A usable region and the index of its first frame. -/
structure FrameSpan where
  range : PhysicalRange
  firstFrame : ℕ
deriving DecidableEq

/-- Ownership bitmaps over the usable spans in a normalized map. -/
structure FrameAllocator where
  spans : List FrameSpan
  allocatedBitmap : List (BitVec 64)
  reservedBitmap : List (BitVec 64)
  totalFrames : ℕ
  freeFrames : ℕ
deriving DecidableEq

/-- Operations of the allocator. -/
abbrev FrameAct (α : Type) : Type := Act FrameAllocator FrameAllocationError α

/-- `u64::is_power_of_two`. -/
def isPowerOfTwo (n : ℕ) : Bool := n != 0 && 2 ^ n.log2 == n

namespace FrameAllocator

/-! ## Construction -/

/-- The loop of `from_map` over the regions: the spans and the number of frames. -/
def collectSpans : List MemoryRegion → List FrameSpan → ℕ →
    Except FrameAllocationError (List FrameSpan × ℕ)
  | [], spans, totalFrames => .ok (spans, totalFrames)
  | region :: regions, spans, totalFrames =>
    if region.kind ≠ .usable then collectSpans regions spans totalFrames
    else do
      let total ← okOr (checkedAdd 64 totalFrames region.range.pageCount) .overflow
      collectSpans regions (spans ++ [{ range := region.range, firstFrame := totalFrames }]) total

/-- `FrameAllocator::from_map`. The flags are the heap's answers to the three reservations. -/
def fromMap (map : NormalizedMemoryMap) (spansGranted allocatedGranted reservedGranted : Bool) :
    Except FrameAllocationError FrameAllocator := do
  rejectIf (spansGranted = false) .metadataExhausted
  let (spans, totalFrames) ← collectSpans map.regions [] 0
  let padded ← okOr (checkedAdd 64 totalFrames 63) .overflow
  let wordCount := padded / 64
  rejectIf (allocatedGranted = false) .metadataExhausted
  rejectIf (reservedGranted = false) .metadataExhausted
  return { spans, allocatedBitmap := List.replicate wordCount 0,
           reservedBitmap := List.replicate wordCount 0, totalFrames, freeFrames := totalFrames }

/-! ## Bits, indices and addresses -/

variable (range : PhysicalRange) (self : FrameAllocator) (frameIndex : ℕ)

/-- `bitmap_location`. -/
def bitmapLocation : Except FrameAllocationError (ℕ × BitVec 64) := do
  rejectIf (self.totalFrames ≤ frameIndex) .overflow
  return (frameIndex / 64, bitMask frameIndex)

/-- `is_allocated`. -/
def isAllocated : Except FrameAllocationError Bool := do
  let (word, mask) ← self.bitmapLocation frameIndex
  return (self.allocatedBitmap.getD word 0 &&& mask) ≠ 0

/-- `is_reserved`. -/
def isReserved : Except FrameAllocationError Bool := do
  let (word, mask) ← self.bitmapLocation frameIndex
  return (self.reservedBitmap.getD word 0 &&& mask) ≠ 0

/-- `is_unavailable`. -/
def isUnavailable : Except FrameAllocationError Bool := do
  let allocated ← self.isAllocated frameIndex
  -- the right-hand side of `||` is evaluated only when the left one is false
  if allocated then return true else self.isReserved frameIndex

/-- `set_allocated`. -/
def setAllocated (allocated : Bool) : FrameAct Unit := do
  let self ← .get
  let (word, mask) ← .ofExcept (self.bitmapLocation frameIndex)
  let old := self.allocatedBitmap.getD word 0
  .modify fun self => { self with
    allocatedBitmap :=
      self.allocatedBitmap.set word (if allocated then old ||| mask else old &&& ~~~ mask) }

/-- `mark_reserved`. -/
def markReserved : FrameAct Unit := do
  let self ← .get
  let (word, mask) ← .ofExcept (self.bitmapLocation frameIndex)
  .modify fun self => { self with
    reservedBitmap := self.reservedBitmap.set word (self.reservedBitmap.getD word 0 ||| mask) }

/-- The loop of `address_for_index`. -/
def addressInSpans : List FrameSpan → ℕ → Option ℕ
  | [], _ => none
  | span :: spans, frameIndex =>
    if span.firstFrame ≤ frameIndex ∧ frameIndex - span.firstFrame < span.range.pageCount then
      (checkedMul 64 (frameIndex - span.firstFrame) basePageSize).bind fun offset =>
        checkedAdd 64 span.range.start offset
    else addressInSpans spans frameIndex

/-- `address_for_index`. -/
def addressForIndex : Option ℕ :=
  addressInSpans self.spans frameIndex

/-- The loop of `index_for_address`. -/
def indexInSpans : List FrameSpan → ℕ → Option ℕ
  | [], _ => none
  | span :: spans, address =>
    if span.range.start ≤ address ∧ address < span.range.finish then
      checkedAdd 64 span.firstFrame ((address - span.range.start) / basePageSize)
    else indexInSpans spans address

/-- `index_for_address`. -/
def indexForAddress (address : ℕ) : Option ℕ :=
  if address % basePageSize ≠ 0 then none else indexInSpans self.spans address

/-! ## Operations -/

/-- `FrameAllocator::allocate`. -/
def allocate : FrameAct ℕ := do
  let self ← .get
  .reject (self.freeFrames = 0) .exhausted
  let found ← .firstSome (List.range self.totalFrames) fun frameIndex => do
    let self ← .get
    let unavailable ← .ofExcept (self.isUnavailable frameIndex)
    if unavailable then return none
    else do
      setAllocated frameIndex true
      .modify fun self => { self with freeFrames := self.freeFrames - 1 }
      let self ← .get
      let address ← .okOr (self.addressForIndex frameIndex) .overflow
      return some address
  match found with
  | some address => return address
  | none => .fail .exhausted

/-- Whether no frame of the list is unavailable; the loop stops at the first that is. -/
def allAvailable (self : FrameAllocator) : List ℕ → Except FrameAllocationError Bool
  | [] => .ok true
  | frame :: frames => do
    let unavailable ← self.isUnavailable frame
    if unavailable then return false else self.allAvailable frames

/-- The frame indices `first..end`. -/
def frameRange (first finish : ℕ) : List ℕ := (List.range (finish - first)).map (first + ·)

/-- One candidate start of `allocate_contiguous`: nothing, or the range that was allocated. -/
def allocateAt (pageCount alignmentPages : ℕ) (span : FrameSpan) (localStart : ℕ) :
    FrameAct (Option PhysicalRange) := do
  let self ← .get
  let offset ← .okOr (checkedMul 64 localStart basePageSize) .overflow
  let address ← .okOr (checkedAdd 64 span.range.start offset) .overflow
  let alignmentBytes ← .okOr (checkedMul 64 alignmentPages basePageSize) .overflow
  if address % alignmentBytes ≠ 0 then return none
  else do
    let first ← .okOr (checkedAdd 64 span.firstFrame localStart) .overflow
    let finish ← .okOr (checkedAdd 64 first pageCount) .overflow
    let free ← .ofExcept (self.allAvailable (frameRange first finish))
    if free = false then return none
    else do
      let nextFree ← .okOr (checkedSub self.freeFrames pageCount) .overflow
      .forEach (frameRange first finish) fun frame => setAllocated frame true
      .modify fun self => { self with freeFrames := nextFree }
      let range ← .ofExcept
        ((PhysicalRange.fromPages address pageCount).mapError fun _ => .overflow)
      return some range

/-- One span of `allocate_contiguous`: every start from which the run stays inside. -/
def allocateInSpan (pageCount alignmentPages : ℕ) (span : FrameSpan) :
    FrameAct (Option PhysicalRange) :=
  if span.range.pageCount < pageCount then return none
  else do
    let lastStart ← .okOr (checkedSub span.range.pageCount pageCount) .overflow
    .firstSome (List.range (lastStart + 1)) (allocateAt pageCount alignmentPages span)

/-- `FrameAllocator::allocate_contiguous`. -/
def allocateContiguous (pageCount alignmentPages : ℕ) : FrameAct PhysicalRange := do
  .reject (pageCount = 0 ∨ alignmentPages = 0 ∨ ¬ isPowerOfTwo alignmentPages) .invalidFrame
  let self ← .get
  .reject (self.freeFrames < pageCount) .exhausted
  let found ← .firstSome self.spans (allocateInSpan pageCount alignmentPages)
  match found with
  | some range => return range
  | none => .fail .exhausted

/-- The inner loop of `reserve_range` over frame indices, with the running count. -/
def reserveFrames : List ℕ → ℕ → FrameAct ℕ
  | [], reserved => pure reserved
  | frameIndex :: frames, reserved => do
    let self ← .get
    let unavailable ← .ofExcept (self.isUnavailable frameIndex)
    if unavailable then reserveFrames frames reserved
    else do
      let nextFree ← .okOr (checkedSub self.freeFrames 1) .overflow
      let nextReserved ← .okOr (checkedAdd 64 reserved 1) .overflow
      markReserved frameIndex
      .modify fun self => { self with freeFrames := nextFree }
      reserveFrames frames nextReserved

/-- The outer loop of `reserve_range` over the spans. -/
def reserveSpans (range : PhysicalRange) : List FrameSpan → ℕ → FrameAct ℕ
  | [], reserved => pure reserved
  | span :: spans, reserved => do
    let overlapStart := max span.range.start range.start
    let overlapEnd := min span.range.finish range.finish
    if overlapEnd ≤ overlapStart then reserveSpans range spans reserved
    else do
      let first ← .okOr (checkedAdd 64 span.firstFrame
        ((overlapStart - span.range.start) / basePageSize)) .overflow
      let pageCount := (overlapEnd - overlapStart) / basePageSize
      let finish ← .okOr (checkedAdd 64 first pageCount) .overflow
      let reserved ← reserveFrames (frameRange first finish) reserved
      reserveSpans range spans reserved

/-- `FrameAllocator::reserve_range`. -/
def reserveRange : FrameAct ℕ := do
  let self ← .get
  reserveSpans range self.spans 0

/-- The checks `free` and `free_range` make before they release a frame. -/
def checkAllocated (address : ℕ) : Except FrameAllocationError ℕ := do
  let index ← okOr (self.indexForAddress address) .invalidFrame
  let reserved ← self.isReserved index
  rejectIf (reserved = true) .invalidFrame
  let allocated ← self.isAllocated index
  rejectIf (allocated = false) .doubleFree
  return index

/-- `FrameAllocator::free`. -/
def free (address : ℕ) : FrameAct Unit := do
  let self ← .get
  let frameIndex ← .ofExcept (self.checkAllocated address)
  setAllocated frameIndex false
  let self ← .get
  let nextFree ← .okOr (checkedAdd 64 self.freeFrames 1) .overflow
  .modify fun self => { self with freeFrames := nextFree }

/-- The body of the first loop of `free_range`: one page of the range is checked. -/
def checkPage (page : ℕ) : FrameAct Unit := do
  let self ← .get
  let offset ← .okOr (checkedMul 64 page basePageSize) .overflow
  let address ← .okOr (checkedAdd 64 range.start offset) .overflow
  let _ ← .ofExcept (self.checkAllocated address)

/-- The body of its second loop: the page is released. -/
def releasePage (page : ℕ) : FrameAct Unit := do
  let self ← .get
  let index ← .okOr (self.indexForAddress (range.start + page * basePageSize)) .invalidFrame
  setAllocated index false

/-- `FrameAllocator::free_range`. -/
def freeRange : FrameAct Unit := do
  .forEach (List.range range.pageCount) (checkPage range)
  let self ← .get
  let nextFree ← .okOr (checkedAdd 64 self.freeFrames range.pageCount) .overflow
  .forEach (List.range range.pageCount) (releasePage range)
  .modify fun self => { self with freeFrames := nextFree }

end FrameAllocator

end Troe.Memory
