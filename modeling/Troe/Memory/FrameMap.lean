import Mathlib.Data.Set.Card
import Troe.Memory.Frames

/-!
# What the frame allocator is for

A plain map from page addresses to the states free, allocated and reserved, and the answers a
caller may get from it. `FrameMap.Step` says nothing of bitmaps, spans or indices.
-/

namespace Troe.Memory

open Lib

/-- State of one usable frame. -/
inductive FrameState where
  | free
  | allocated
  | reserved
deriving DecidableEq

/-- The state of every usable frame, by its address. -/
abbrev FrameMap : Type := ℕ → Option FrameState

/-- The page addresses in a range. -/
def PhysicalRange.pages (range : PhysicalRange) : Set ℕ :=
  {x | basePageSize ∣ x ∧ range.start ≤ x ∧ x < range.finish}

/-- A call of the allocator. Ranges are the crate's own, so they are valid. -/
inductive FrameCall where
  | allocate
  | allocateContiguous (pageCount alignmentPages : ℕ)
  | reserveRange (range : PhysicalRange) (valid : range.Valid)
  | free (address : ℕ)
  | freeRange (range : PhysicalRange) (valid : range.Valid)

/-- The value of a successful call. -/
inductive FrameReply where
  | address (address : ℕ)
  | range (range : PhysicalRange)
  | count (count : ℕ)
  | unit

namespace FrameMap

/-- Addresses of the free frames. -/
def freeSet (f : FrameMap) : Set ℕ := {x | f x = some .free}

open Classical in
/-- Give every frame of `S` the same state. -/
noncomputable def assign (f : FrameMap) (S : Set ℕ) (state : FrameState) : FrameMap :=
  fun x => if x ∈ S then some state else f x

/-- A run of free frames inside one of the usable ranges, starting at a multiple of the
alignment. -/
structure FreeRun (usable : List PhysicalRange) (f : FrameMap) (pageCount alignmentPages : ℕ)
    (range : PhysicalRange) : Prop where
  inside : ∃ r ∈ usable, r.start ≤ range.start ∧ range.finish ≤ r.finish
  finish_eq : range.finish = range.start + pageCount * basePageSize
  aligned : alignmentPages * basePageSize ∣ range.start
  free : range.pages ⊆ f.freeSet

/-- The bounds `allocate_contiguous` accepts: a page count, and a power of two whose byte size is
a 64-bit number. -/
def Admitted (pageCount alignmentPages : ℕ) : Prop :=
  pageCount ≠ 0 ∧ isPowerOfTwo alignmentPages = true ∧ alignmentPages * basePageSize < 2 ^ 64

/-- One call on the plain map: its answer, and the map afterwards. -/
inductive Step (usable : List PhysicalRange) (f : FrameMap) :
    FrameCall → Except FrameAllocationError FrameReply → FrameMap → Prop
  | allocate {x : ℕ} (lowest : IsLeast f.freeSet x) :
      Step usable f .allocate (.ok (.address x)) (f.assign {x} .allocated)
  | allocateRefused (none_free : f.freeSet = ∅) :
      Step usable f .allocate (.error .exhausted) f
  | allocateContiguous {pageCount alignmentPages : ℕ} {range : PhysicalRange}
      (admitted : Admitted pageCount alignmentPages)
      (run : FreeRun usable f pageCount alignmentPages range) :
      Step usable f (.allocateContiguous pageCount alignmentPages) (.ok (.range range))
        (f.assign range.pages .allocated)
  | allocateContiguousRefused {pageCount alignmentPages : ℕ} {e : FrameAllocationError}
      (refused : ¬ (Admitted pageCount alignmentPages ∧
        ∃ range, FreeRun usable f pageCount alignmentPages range)) :
      Step usable f (.allocateContiguous pageCount alignmentPages) (.error e) f
  | reserveRange {range : PhysicalRange} {valid : range.Valid} :
      Step usable f (.reserveRange range valid) (.ok (.count (range.pages ∩ f.freeSet).ncard))
        (f.assign (range.pages ∩ f.freeSet) .reserved)
  | free {x : ℕ} (owned : f x = some .allocated) :
      Step usable f (.free x) (.ok .unit) (f.assign {x} .free)
  | freeRefused {x : ℕ} (foreign : f x ≠ some .allocated) :
      Step usable f (.free x)
        (.error (if f x = some .free then .doubleFree else .invalidFrame)) f
  | freeRange {range : PhysicalRange} {valid : range.Valid}
      (owned : ∀ x ∈ range.pages, f x = some .allocated) :
      Step usable f (.freeRange range valid) (.ok .unit) (f.assign range.pages .free)
  | freeRangeRefused {range : PhysicalRange} {valid : range.Valid} {e : FrameAllocationError}
      (foreign : ∃ x ∈ range.pages, f x ≠ some .allocated) :
      Step usable f (.freeRange range valid) (.error e) f

variable {usable : List PhysicalRange} {f f' : FrameMap} {call : FrameCall}
  {answer : Except FrameAllocationError FrameReply}

theorem assign_of_mem {S : Set ℕ} {state : FrameState} {x : ℕ} (h : x ∈ S) :
    f.assign S state x = some state := if_pos h

theorem assign_of_notMem {S : Set ℕ} {state : FrameState} {x : ℕ} (h : x ∉ S) :
    f.assign S state x = f x := if_neg h

/-- No call takes a frame out of the reserved state. -/
theorem Step.reserved_stays (h : Step usable f call answer f') {x : ℕ}
    (hx : f x = some .reserved) : f' x = some .reserved := by
  -- every assigned frame was free or allocated before
  have keep : ∀ {S : Set ℕ} {state : FrameState}, (∀ y ∈ S, f y ≠ some .reserved) →
      f.assign S state x = some .reserved := by
    intro S state hS
    rw [assign_of_notMem (fun hmem => hS x hmem hx)]
    exact hx
  cases h with
  | allocate lowest =>
    apply keep
    rintro y rfl hy
    have hfree : f y = some .free := lowest.1
    simp [hfree] at hy
  | allocateContiguous _ run =>
    apply keep
    intro y hy hreserved
    have hfree : f y = some .free := run.free hy
    simp [hfree] at hreserved
  | reserveRange =>
    apply keep
    intro y hy hreserved
    have hfree : f y = some .free := hy.2
    simp [hfree] at hreserved
  | free owned =>
    apply keep
    rintro y rfl hy
    simp [owned] at hy
  | freeRange owned =>
    apply keep
    intro y hy hreserved
    simp [owned y hy] at hreserved
  | allocateRefused | allocateContiguousRefused | freeRefused | freeRangeRefused => exact hx

end FrameMap

namespace FrameAllocator

/-- State of the frame with the given index. -/
def frameState (self : FrameAllocator) (frameIndex : ℕ) : FrameState :=
  if testBit self.reservedBitmap frameIndex then .reserved
  else if testBit self.allocatedBitmap frameIndex then .allocated
  else .free

/-- The plain map an allocator stands for. -/
def frames (self : FrameAllocator) : FrameMap :=
  fun x => (self.indexForAddress x).map self.frameState

/-- A call made on the allocator. -/
def perform : FrameCall → FrameAct FrameReply
  | .allocate => do return .address (← allocate)
  | .allocateContiguous pageCount alignmentPages => do
    return .range (← allocateContiguous pageCount alignmentPages)
  | .reserveRange range _ => do return .count (← reserveRange range)
  | .free address => do
    free address
    return .unit
  | .freeRange range _ => do
    freeRange range
    return .unit

/-- The allocator after a sequence of calls. -/
def after (self : FrameAllocator) (calls : List FrameCall) : FrameAllocator :=
  calls.foldl (fun a call => (perform call a).2) self

end FrameAllocator

end Troe.Memory
