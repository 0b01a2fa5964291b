import Troe.Memory.FrameOperations

/-!
# The frame allocator refines the plain map

From one call to whole runs, starting with the allocator `from_map` makes of a normalized map.
-/

namespace Troe.Memory.FrameAllocator

open Lib
open NormalizedMemoryMap (build)

variable {a : FrameAllocator} {x : ℕ} {usable : List PhysicalRange}

/-- Every call keeps the invariant and answers as the plain map allows. -/
theorem Inv.simulates (h : Inv usable a) (call : FrameCall) : Simulates usable a call := by
  cases call with
  | allocate => exact h.simulates_allocate
  | allocateContiguous pageCount alignmentPages =>
    exact h.simulates_allocateContiguous pageCount alignmentPages
  | reserveRange range valid => exact h.simulates_reserveRange range valid
  | free address => exact h.simulates_free address
  | freeRange range valid => exact h.simulates_freeRange range valid

theorem Inv.perform (h : Inv usable a) (call : FrameCall) :
    Inv usable (perform call a).2 ∧
      FrameMap.Step usable a.frames call (perform call a).1 (perform call a).2.frames ∧
      ∀ e, (perform call a).1 = .error e → (perform call a).2 = a := by
  obtain ⟨hok, herror⟩ := Act.wp_iff.mp (h.simulates call)
  rcases hresult : FrameAllocator.perform call a with ⟨e | reply, a'⟩
  · obtain ⟨rfl, hstep⟩ := herror e a' hresult
    exact ⟨h, hstep, fun _ _ => rfl⟩
  · obtain ⟨hinv, hstep⟩ := hok reply a' hresult
    exact ⟨hinv, hstep, by simp⟩

theorem Inv.after (h : Inv usable a) (calls : List FrameCall) : Inv usable (a.after calls) := by
  induction calls generalizing a with
  | nil => exact h
  | cons call calls ih => exact ih (h.perform call).1

/-- A reserved frame is reserved after every further sequence of calls. -/
theorem Inv.reserved_after (h : Inv usable a) (hx : a.frames x = some .reserved)
    (calls : List FrameCall) : (a.after calls).frames x = some .reserved := by
  induction calls generalizing a with
  | nil => exact hx
  | cons call calls ih =>
    obtain ⟨hinv, hstep, -⟩ := h.perform call
    exact ih hinv (hstep.reserved_stays hx)

/-- Ranges of the usable regions of a map. -/
def usableRanges (map : NormalizedMemoryMap) : List PhysicalRange :=
  (map.regions.filter (·.kind = .usable)).map MemoryRegion.range

theorem frameState_of_zero {m n : ℕ} (hallocated : a.allocatedBitmap = List.replicate m 0)
    (hreserved : a.reservedBitmap = List.replicate n 0) (i : ℕ) : a.frameState i = .free := by
  rw [frameState, hallocated, hreserved, testBit_replicate_zero, testBit_replicate_zero]
  rfl

/-- A new allocator has the frames of the usable regions, all free. -/
theorem inv_fromMap {map : NormalizedMemoryMap}
    {spansGranted allocatedGranted reservedGranted : Bool} (hmap : Normalized map.regions)
    (h : fromMap map spansGranted allocatedGranted reservedGranted = .ok a) :
    Inv (usableRanges map) a ∧ ∀ i, a.frameState i = .free := by
  simp only [fromMap, ok_rules] at h
  obtain ⟨-, -, ⟨spans, total⟩, hspans, padded, ⟨-, rfl⟩, -, -, -, -, ha⟩ := h
  obtain ⟨_, rfl, hlayout, hranges⟩ := collectSpans_eq_ok hmap.valid hmap.pairwise_before
    (Nat.le_of_eq (Nat.zero_mul _)) (by decide) (fun _ _ => Nat.zero_le _) hspans
  have hfree : ∀ i, a.frameState i = .free := by
    cases ha
    exact frameState_of_zero rfl rfl
  refine ⟨?_, hfree⟩
  cases ha
  refine ⟨hlayout, hranges, ?_, ?_, ?_⟩
  · simp only [List.length_replicate]
    omega
  · simp only [List.length_replicate]
    omega
  · rw [freeIndices, Finset.filter_true_of_mem fun i _ => hfree i, Finset.card_range]

/-- The frames of an allocator are the usable pages of its map. -/
theorem Inv.isSome_frames_iff {map : NormalizedMemoryMap} (hmap : Normalized map.regions)
    (h : Inv (usableRanges map) a) :
    (a.frames x).isSome = true ↔ basePageSize ∣ x ∧ kindAt map.regions x = some .usable := by
  rw [kindAt_eq_some_iff (hmap.pairwise_before.imp .inl), Option.isSome_iff_exists]
  constructor
  · rintro ⟨state, hstate⟩
    obtain ⟨i, ⟨span, hspan, hat⟩, -⟩ := h.frames_eq_some.mp hstate
    have hvalid := (h.layout.of_mem hspan).1
    have hrange : span.range ∈ usableRanges map := h.ranges ▸ List.mem_map_of_mem hspan
    obtain ⟨r, hr, heq⟩ := List.mem_map.mp hrange
    obtain ⟨hmem, hkind⟩ := List.mem_filter.mp hr
    have hbounds := hat.bounds hvalid
    rw [← heq] at hbounds
    exact ⟨hbounds.1, r, hmem, ⟨hbounds.2.2.2.1, hbounds.2.2.2.2⟩, by simpa using hkind⟩
  · rintro ⟨hdvd, r, hmem, hcovers, hkind⟩
    have hrange : r.range ∈ a.spans.map FrameSpan.range := by
      rw [h.ranges]
      exact List.mem_map_of_mem (List.mem_filter.mpr ⟨hmem, by simpa using hkind⟩)
    obtain ⟨span, hspan, heq⟩ := List.mem_map.mp hrange
    have hpage : x ∈ span.range.pages := ⟨hdvd, heq ▸ hcovers⟩
    obtain ⟨i, hat⟩ := (FrameSpan.frameAt_of_mem_pages (h.layout.of_mem hspan).1).mp hpage
    exact ⟨_, h.frames_of_frameAt ⟨span, hspan, hat⟩⟩

/-- The allocator refines the plain map: it starts with every usable page free, and after every
sequence of calls each further call answers as the plain map allows, the free count is the number
of free frames, a refused call has changed nothing, and reserved frames stay reserved. -/
theorem refines_frameMap {firmware : List MemoryRegion} {reservations : List PhysicalRange}
    {map : NormalizedMemoryMap} {spansGranted allocatedGranted reservedGranted : Bool}
    {a₀ : FrameAllocator} (hfirmware : ∀ r ∈ firmware, r.range.Valid)
    (hreservations : ∀ r ∈ reservations, r.Valid)
    (hmap : build firmware reservations = .ok map)
    (ha₀ : fromMap map spansGranted allocatedGranted reservedGranted = .ok a₀)
    (calls : List FrameCall) :
    (∀ x, (a₀.frames x = some .free ↔ basePageSize ∣ x ∧ kindAt map.regions x = some .usable) ∧
      ((a₀.after calls).frames x ≠ none ↔
        basePageSize ∣ x ∧ kindAt map.regions x = some .usable)) ∧
    (∀ call, FrameMap.Step (usableRanges map) (a₀.after calls).frames call
        (FrameAllocator.perform call (a₀.after calls)).1
        (FrameAllocator.perform call (a₀.after calls)).2.frames ∧
      ∀ e, (FrameAllocator.perform call (a₀.after calls)).1 = .error e →
        (FrameAllocator.perform call (a₀.after calls)).2 = a₀.after calls) ∧
    (a₀.after calls).freeFrames = (a₀.after calls).frames.freeSet.ncard ∧
    ∀ x, (a₀.after calls).frames x = some .reserved →
      ∀ later, ((a₀.after calls).after later).frames x = some .reserved := by
  have hnormal := (build_eq_ok hfirmware hreservations hmap).1
  obtain ⟨hinv₀, hfree⟩ := inv_fromMap hnormal ha₀
  have hinv := hinv₀.after calls
  refine ⟨fun x => ⟨?_, ?_⟩, fun call => (hinv.perform call).2, hinv.freeFrames_eq,
    fun x hx later => hinv.reserved_after hx later⟩
  · rw [← hinv₀.isSome_frames_iff hnormal, Option.isSome_iff_exists]
    constructor
    · exact fun hx => ⟨_, hx⟩
    · rintro ⟨state, hstate⟩
      obtain ⟨i, hat, -⟩ := hinv₀.frames_eq_some.mp hstate
      exact hinv₀.frames_eq_some.mpr ⟨i, hat, hfree i⟩
  · rw [← hinv.isSome_frames_iff hnormal, Option.isSome_iff_ne_none]

/-- One usable region of four pages. -/
def fourPages : List MemoryRegion := [⟨⟨0, 16384⟩, .usable⟩]

/-- The second page is allocated after the first was. -/
theorem refines_frameMap_four_pages :
    ∃ map a₀, build fourPages [] = .ok map ∧
      fromMap map true true true = .ok a₀ ∧
      (a₀.after [.allocate, .free 0, .allocate]).frames.freeSet.ncard = 3 ∧
      FrameMap.Step (usableRanges map) (a₀.after [.allocate]).frames .allocate
        (.ok (.address 4096)) ((a₀.after [.allocate, .allocate])).frames := by
  obtain ⟨map, hmap⟩ : ∃ map, build fourPages [] = .ok map := ⟨_, rfl⟩
  have ha₀ : fromMap map true true true = .ok ⟨[⟨⟨0, 16384⟩, 0⟩], [0], [0], 4, 4⟩ := by
    cases hmap
    decide
  have hvalid : ∀ r ∈ fourPages, r.range.Valid := by
    simp only [fourPages, List.mem_singleton, forall_eq]
    exact ⟨by decide, by decide, by decide, by decide⟩
  refine ⟨map, _, hmap, ha₀, ?_, ?_⟩
  · rw [← (refines_frameMap hvalid (by simp) hmap ha₀ _).2.2.1]
    decide
  · exact ((refines_frameMap hvalid (by simp) hmap ha₀ [.allocate]).2.1 .allocate).1

/-- An alignment that is not a power of two is refused, although its byte size is a 64-bit number
and a run with that alignment is free. -/
theorem allocateContiguous_refuses_three_pages :
    ∃ map a₀, build fourPages [] = .ok map ∧
      fromMap map true true true = .ok a₀ ∧ 3 * basePageSize < 2 ^ 64 ∧
      FrameMap.FreeRun (usableRanges map) a₀.frames 1 3 ⟨12288, 16384⟩ ∧
      allocateContiguous 1 3 a₀ = (.error .invalidFrame, a₀) := by
  obtain ⟨map, hmap⟩ : ∃ map, build fourPages [] = .ok map := ⟨_, rfl⟩
  have ha₀ : fromMap map true true true = .ok ⟨[⟨⟨0, 16384⟩, 0⟩], [0], [0], 4, 4⟩ := by
    cases hmap
    decide
  refine ⟨map, _, hmap, ha₀, by decide, ⟨⟨⟨0, 16384⟩, ?_, by decide, by decide⟩, rfl, by decide, ?_⟩,
    by decide⟩
  · cases hmap
    decide
  · rintro x ⟨⟨k, rfl⟩, hlo, hhi⟩
    obtain rfl : k = 3 := by
      simp only [basePageSize] at hlo hhi
      omega
    show _ = _
    decide

end Troe.Memory.FrameAllocator
