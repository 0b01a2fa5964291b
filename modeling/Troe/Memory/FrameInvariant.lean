import Troe.Memory.FrameMap
import Troe.Memory.MapTheorems

/-!
# The invariant of the frame allocator

`Layout` is what `from_map` makes of the usable regions: spans that ascend in address and number
their frames without gaps. Frame indices and page addresses are then two names of the same frames,
in the same order (`FrameAt`). `Inv` ties the free count and the bitmaps to the layout; `Changes`
says that an operation gave one set of frames one state and left the others alone.
-/

namespace Troe.Memory

open Lib
open FrameAllocator (addressInSpans collectSpans indexInSpans)

/-- Frame `i` of the span starts at address `x`. -/
def FrameSpan.FrameAt (span : FrameSpan) (i x : ℕ) : Prop :=
  ∃ k < span.range.pageCount, i = span.firstFrame + k ∧ x = span.range.start + k * basePageSize

/-- Frame `i` of the spans starts at address `x`. -/
def FrameAt (spans : List FrameSpan) (i x : ℕ) : Prop := ∃ span ∈ spans, span.FrameAt i x

/-- Spans that number their frames from `n` up to `total` and lie at or above address `lo`. -/
inductive Layout : ℕ → ℕ → List FrameSpan → ℕ → Prop
  | nil {n lo : ℕ} (bound : n * basePageSize ≤ lo) (address_bound : lo < 2 ^ 64) : Layout n lo [] n
  | cons {n lo total : ℕ} {span : FrameSpan} {spans : List FrameSpan}
      (bound : n * basePageSize ≤ lo) (valid : span.range.Valid) (above : lo ≤ span.range.start)
      (first : span.firstFrame = n)
      (rest : Layout (n + span.range.pageCount) span.range.finish spans total) :
      Layout n lo (span :: spans) total

/-- The pages of a valid range, counted from its start. -/
theorem PhysicalRange.Valid.mem_pages {range : PhysicalRange} (h : range.Valid) {x : ℕ} :
    x ∈ range.pages ↔ ∃ k < range.pageCount, x = range.start + k * basePageSize := by
  obtain ⟨c, hc⟩ := h.start_aligned
  have hfinish := h.finish_eq
  constructor
  · rintro ⟨⟨d, rfl⟩, hstart, hlt⟩
    simp only [basePageSize] at *
    exact ⟨d - c, by omega, by omega⟩
  · rintro ⟨k, hk, rfl⟩
    refine ⟨Nat.dvd_add h.start_aligned (Nat.dvd_mul_left _ _), by omega, ?_⟩
    simp only [basePageSize] at *
    omega

theorem FrameSpan.frameAt_of_mem_pages {span : FrameSpan} (h : span.range.Valid) {x : ℕ} :
    x ∈ span.range.pages ↔ ∃ i, span.FrameAt i x := by
  rw [h.mem_pages]
  constructor
  · rintro ⟨k, hk, rfl⟩
    exact ⟨_, k, hk, rfl, rfl⟩
  · rintro ⟨i, k, hk, -, rfl⟩
    exact ⟨k, hk, rfl⟩

variable {n lo total i j x y : ℕ} {span : FrameSpan} {spans : List FrameSpan}

theorem frameAt_cons : FrameAt (span :: spans) i x ↔ span.FrameAt i x ∨ FrameAt spans i x := by
  simp [FrameAt]

/-- The frames of one span, below and above. -/
theorem FrameSpan.FrameAt.bounds (h : span.FrameAt i x) (hvalid : span.range.Valid) :
    basePageSize ∣ x ∧ span.firstFrame ≤ i ∧ i < span.firstFrame + span.range.pageCount ∧
      span.range.start ≤ x ∧ x < span.range.finish := by
  have hpage : x ∈ span.range.pages := (frameAt_of_mem_pages hvalid).mpr ⟨i, h⟩
  obtain ⟨k, hk, rfl, -⟩ := h
  exact ⟨hpage.1, Nat.le_add_right _ _, by omega, hpage.2.1, hpage.2.2⟩

/-- Inside one span indices and addresses ascend together. -/
theorem FrameSpan.FrameAt.lt_iff (h : span.FrameAt i x) (h' : span.FrameAt j y) :
    i < j ↔ x < y := by
  obtain ⟨k, -, rfl, rfl⟩ := h
  obtain ⟨l, -, rfl, rfl⟩ := h'
  simp only [basePageSize]
  omega

namespace Layout

variable (h : Layout n lo spans total)
include h

theorem le_total : n ≤ total := by
  induction h with
  | nil => exact le_rfl
  | cons _ _ _ _ _ ih => omega

/-- There are fewer frames than pages in the address space. -/
theorem total_lt : total < 2 ^ 52 := by
  induction h with
  | nil bound address_bound =>
    simp only [basePageSize] at bound
    omega
  | cons _ _ _ _ _ ih => exact ih

/-- A span of the layout: its range, and the indices it numbers. -/
theorem of_mem (hspan : span ∈ spans) :
    span.range.Valid ∧ lo ≤ span.range.start ∧ n ≤ span.firstFrame ∧
      span.firstFrame + span.range.pageCount ≤ total := by
  induction h with
  | nil => cases hspan
  | cons bound valid above first rest ih =>
    rcases List.mem_cons.mp hspan with rfl | hmem
    · exact ⟨valid, above, first.ge, first ▸ rest.le_total⟩
    · obtain ⟨hvalid, hlo, hfirst, hlast⟩ := ih hmem
      have := valid.start_lt
      exact ⟨hvalid, by omega, by omega, hlast⟩

/-- The frames of a layout, below and above. -/
theorem frameAt_bounds (hat : FrameAt spans i x) :
    basePageSize ∣ x ∧ n ≤ i ∧ i < total ∧ lo ≤ x := by
  obtain ⟨span, hmem, hframe⟩ := hat
  obtain ⟨hvalid, hlo, hfirst, hlast⟩ := h.of_mem hmem
  obtain ⟨hdvd, hi, hi', hx, -⟩ := hframe.bounds hvalid
  exact ⟨hdvd, by omega, by omega, by omega⟩

/-- Frame indices and addresses ascend together. -/
theorem lt_iff (hx : FrameAt spans i x) (hy : FrameAt spans j y) : i < j ↔ x < y := by
  induction h with
  | nil => obtain ⟨span, hmem, -⟩ := hx; cases hmem
  | cons bound valid above first rest ih =>
    -- a frame of the first span lies before every frame of the others
    rcases frameAt_cons.mp hx with hx | hx <;> rcases frameAt_cons.mp hy with hy | hy
    · exact hx.lt_iff hy
    · have hi := hx.bounds valid
      have hj := rest.frameAt_bounds hy
      omega
    · have hi := rest.frameAt_bounds hx
      have hj := hy.bounds valid
      omega
    · exact ih hx hy

/-- An index is the index of one page. -/
theorem address_unique (hx : FrameAt spans i x) (hy : FrameAt spans i y) : x = y := by
  have hxy := h.lt_iff hx hy
  have hyx := h.lt_iff hy hx
  omega

/-- A page has one index. -/
theorem index_unique (hx : FrameAt spans i x) (hy : FrameAt spans j x) : i = j := by
  have hij := h.lt_iff hx hy
  have hji := h.lt_iff hy hx
  omega

/-- Every index of the layout is a frame. -/
theorem exists_address (hn : n ≤ i) (hi : i < total) : ∃ x, FrameAt spans i x := by
  induction h with
  | nil => omega
  | @cons n lo total span spans bound valid above first rest ih =>
    by_cases hspan : i < n + span.range.pageCount
    · exact ⟨_, frameAt_cons.mpr (.inl ⟨i - n, by omega, by omega, rfl⟩)⟩
    · obtain ⟨x, hx⟩ := ih (by omega) hi
      exact ⟨x, frameAt_cons.mpr (.inr hx)⟩

/-- `address_for_index` finds the address of every frame. -/
theorem addressInSpans_eq_some : addressInSpans spans i = some x ↔ FrameAt spans i x := by
  induction h with
  | nil => simp [addressInSpans, FrameAt]
  | @cons n lo total span spans bound valid above first rest ih =>
    rw [addressInSpans, frameAt_cons]
    have hfinish := valid.finish_eq
    have hlt := valid.finish_lt
    split
    next hin =>
      have hrest : ¬ FrameAt spans i x := by
        intro hat
        have := rest.frameAt_bounds hat
        omega
      simp only [Option.bind_eq_some_iff, ok_rules, hrest, or_false]
      constructor
      · rintro ⟨offset, ⟨-, rfl⟩, -, rfl⟩
        exact ⟨i - span.firstFrame, hin.2, by omega, rfl⟩
      · rintro ⟨k, hk, rfl, rfl⟩
        rw [Nat.add_sub_cancel_left]
        simp only [basePageSize] at *
        exact ⟨_, ⟨by omega, rfl⟩, by omega, rfl⟩
    next hout =>
      have hspan : ¬ span.FrameAt i x := by
        intro hat
        have := hat.bounds valid
        omega
      simp [ih, hspan]

/-- The loop of `index_for_address` on a page address. -/
theorem indexInSpans_eq_some (hx : basePageSize ∣ x) :
    indexInSpans spans x = some i ↔ FrameAt spans i x := by
  induction h with
  | nil => simp [indexInSpans, FrameAt]
  | @cons n lo total span spans bound valid above first rest ih =>
    rw [indexInSpans, frameAt_cons]
    split
    next hin =>
      have hrest : ¬ FrameAt spans i x := by
        intro hat
        have := rest.frameAt_bounds hat
        omega
      have hpage : x ∈ span.range.pages := ⟨hx, hin⟩
      obtain ⟨k, hk, rfl⟩ := valid.mem_pages.mp hpage
      have htotal := rest.total_lt
      have hle := rest.le_total
      have hdiv : (span.range.start + k * basePageSize - span.range.start) / basePageSize = k := by
        rw [Nat.add_sub_cancel_left, Nat.mul_div_cancel k (by decide)]
      rw [hdiv]
      simp only [ok_rules, hrest, or_false]
      constructor
      · rintro ⟨-, rfl⟩
        exact ⟨k, hk, rfl, rfl⟩
      · rintro ⟨l, hl, rfl, hkl⟩
        simp only [basePageSize] at hkl
        exact ⟨by omega, by omega⟩
    next hout =>
      have hspan : ¬ span.FrameAt i x := by
        intro hat
        have := hat.bounds valid
        omega
      simp [ih, hspan]

end Layout

/-! ## The layout of a normalized map -/

/-- `collect_spans` numbers the frames of the usable regions. -/
theorem collectSpans_eq_ok {regions : List MemoryRegion} {done result : List FrameSpan}
    (hvalid : ∀ r ∈ regions, r.range.Valid) (hbefore : regions.Pairwise Before)
    (hbound : n * basePageSize ≤ lo) (hlo : lo < 2 ^ 64)
    (habove : ∀ r ∈ regions, lo ≤ r.range.start)
    (h : collectSpans regions done n = .ok (result, total)) :
    ∃ spans, result = done ++ spans ∧ Layout n lo spans total ∧
      spans.map FrameSpan.range = (regions.filter (·.kind = .usable)).map MemoryRegion.range := by
  induction regions generalizing n lo done with
  | nil =>
    cases h
    exact ⟨[], by simp, .nil hbound hlo, rfl⟩
  | cons r regions ih =>
    obtain ⟨hr, hrest⟩ := List.pairwise_cons.mp hbefore
    have hvalid' := fun s hs => hvalid s (List.mem_cons_of_mem _ hs)
    have hvr := hvalid r List.mem_cons_self
    rw [collectSpans] at h
    split at h
    next hkind =>
      obtain ⟨spans, hresult, hlayout, hmap⟩ := ih hvalid' hrest hbound hlo
        (fun s hs => habove s (List.mem_cons_of_mem _ hs)) h
      exact ⟨spans, hresult, hlayout, by simp [hmap, hkind]⟩
    next hkind =>
      rw [not_not] at hkind
      simp only [ok_rules] at h
      obtain ⟨next, ⟨-, rfl⟩, h⟩ := h
      have hstart := habove r List.mem_cons_self
      have hcount : (n + r.range.pageCount) * basePageSize ≤ r.range.finish := by
        rw [hvr.finish_eq, Nat.add_mul]
        exact Nat.add_le_add_right (hbound.trans hstart) _
      obtain ⟨spans, hresult, hlayout, hmap⟩ :=
        ih hvalid' hrest hcount hvr.finish_lt (fun s hs => hr s hs) h
      refine ⟨⟨r.range, n⟩ :: spans, by simp [hresult], ?_, by simp [hmap, hkind]⟩
      exact .cons hbound hvr hstart rfl hlayout

/-! ## The invariant -/

namespace FrameAllocator

/-- Indices of the free frames. -/
def freeIndices (a : FrameAllocator) : Finset ℕ :=
  (Finset.range a.totalFrames).filter fun i => a.frameState i = .free

/-- What holds of every allocator over the given usable ranges. -/
structure Inv (usable : List PhysicalRange) (a : FrameAllocator) : Prop where
  layout : Layout 0 0 a.spans a.totalFrames
  ranges : a.spans.map FrameSpan.range = usable
  allocated_length : a.totalFrames ≤ 64 * a.allocatedBitmap.length
  reserved_length : a.totalFrames ≤ 64 * a.reservedBitmap.length
  free_count : a.freeFrames = a.freeIndices.card

/-- From `a` to `a'` the frames of `S` came into `state` and nothing else happened to a frame. -/
structure Changes (a a' : FrameAllocator) (S : Finset ℕ) (state : FrameState) : Prop where
  spans : a'.spans = a.spans
  total : a'.totalFrames = a.totalFrames
  allocated_length : a'.allocatedBitmap.length = a.allocatedBitmap.length
  reserved_length : a'.reservedBitmap.length = a.reservedBitmap.length
  frameState : ∀ i, a'.frameState i = if i ∈ S then state else a.frameState i

variable {a a' a'' : FrameAllocator} {S T : Finset ℕ} {state : FrameState} {i x : ℕ}
  {usable : List PhysicalRange} {X : Set ℕ} {Q : Unit → FrameAllocator → Prop}
  {R : FrameAllocationError → FrameAllocator → Prop}

theorem mem_freeIndices : i ∈ a.freeIndices ↔ i < a.totalFrames ∧ a.frameState i = .free := by
  simp [freeIndices]

/-! ## Changes -/

theorem Changes.refl (a : FrameAllocator) (state : FrameState) : Changes a a ∅ state :=
  ⟨rfl, rfl, rfl, rfl, by simp⟩

theorem Changes.trans (h : Changes a a' S state) (h' : Changes a' a'' T state) :
    Changes a a'' (S ∪ T) state := by
  refine ⟨h'.spans.trans h.spans, h'.total.trans h.total,
    h'.allocated_length.trans h.allocated_length, h'.reserved_length.trans h.reserved_length, ?_⟩
  intro i
  rw [h'.frameState, h.frameState]
  by_cases hT : i ∈ T <;> by_cases hS : i ∈ S <;> simp [hT, hS]

/-- The free count is not part of any frame's state. -/
theorem Changes.withFree (h : Changes a a' S state) (n : ℕ) :
    Changes a { a' with freeFrames := n } S state :=
  ⟨h.spans, h.total, h.allocated_length, h.reserved_length, h.frameState⟩

theorem reservedBit_of_ne (h : a.frameState i ≠ .reserved) :
    testBit a.reservedBitmap i = false := by
  rw [frameState] at h
  by_contra hbit
  simp_all

theorem changes_setAllocated (hi : i < 64 * a.allocatedBitmap.length)
    (hstate : a.frameState i ≠ .reserved) :
    Changes a { a with allocatedBitmap := setBit a.allocatedBitmap i } {i} .allocated := by
  refine ⟨rfl, rfl, length_setBit, rfl, fun j => ?_⟩
  simp only [frameState, testBit_setBit (Nat.div_lt_of_lt_mul hi), Finset.mem_singleton]
  by_cases hj : j = i
  · simp [hj, reservedBit_of_ne hstate]
  · simp [hj]

theorem changes_clearAllocated (hi : i < 64 * a.allocatedBitmap.length)
    (hstate : a.frameState i ≠ .reserved) :
    Changes a { a with allocatedBitmap := clearBit a.allocatedBitmap i } {i} .free := by
  refine ⟨rfl, rfl, length_clearBit, rfl, fun j => ?_⟩
  simp only [frameState, testBit_clearBit (Nat.div_lt_of_lt_mul hi), Finset.mem_singleton]
  by_cases hj : j = i
  · simp [hj, reservedBit_of_ne hstate]
  · simp [hj]

theorem changes_markReserved (hi : i < 64 * a.reservedBitmap.length) :
    Changes a { a with reservedBitmap := setBit a.reservedBitmap i } {i} .reserved := by
  refine ⟨rfl, rfl, rfl, length_setBit, fun j => ?_⟩
  simp only [frameState, testBit_setBit (Nat.div_lt_of_lt_mul hi), Finset.mem_singleton]
  by_cases hj : j = i <;> simp [hj]

/-- The part of the invariant that does not depend on the free count. -/
theorem Inv.of_changes (h : Inv usable a) (hchanges : Changes a a' S state)
    (hcount : a'.freeFrames = a'.freeIndices.card) : Inv usable a' where
  layout := by rw [hchanges.spans, hchanges.total]; exact h.layout
  ranges := by rw [hchanges.spans]; exact h.ranges
  allocated_length := by
    rw [hchanges.total, hchanges.allocated_length]; exact h.allocated_length
  reserved_length := by rw [hchanges.total, hchanges.reserved_length]; exact h.reserved_length
  free_count := hcount

/-- Free frames were taken and counted. -/
theorem Inv.take (h : Inv usable a) (hchanges : Changes a a' S state) (hstate : state ≠ .free)
    (hS : S ⊆ a.freeIndices) (hcount : a'.freeFrames = a.freeFrames - S.card) : Inv usable a' := by
  apply h.of_changes hchanges
  have hfree : a'.freeIndices = a.freeIndices \ S := by
    ext i
    rw [Finset.mem_sdiff, mem_freeIndices, mem_freeIndices, hchanges.total, hchanges.frameState]
    by_cases hi : i ∈ S <;> simp [hi, hstate]
  rw [hcount, hfree, Finset.card_sdiff_of_subset hS, h.free_count]

theorem disjoint_freeIndices (hS : ∀ i ∈ S, a.frameState i ≠ .free) : Disjoint a.freeIndices S := by
  rw [Finset.disjoint_left]
  intro i hi hmem
  exact hS i hmem (mem_freeIndices.mp hi).2

section

variable (h : Inv usable a)
include h

/-- Frames that were not free were given back and counted. -/
theorem Inv.giveBack (hchanges : Changes a a' S .free)
    (hS : ∀ i ∈ S, i < a.totalFrames ∧ a.frameState i ≠ .free)
    (hcount : a'.freeFrames = a.freeFrames + S.card) : Inv usable a' := by
  apply h.of_changes hchanges
  have hfree : a'.freeIndices = a.freeIndices ∪ S := by
    ext i
    rw [Finset.mem_union, mem_freeIndices, mem_freeIndices, hchanges.total, hchanges.frameState]
    by_cases hi : i ∈ S
    · simp [hi, (hS i hi).1]
    · simp [hi]
  rw [hcount, hfree, Finset.card_union_of_disjoint (disjoint_freeIndices fun i hi => (hS i hi).2),
    h.free_count]

/-- Frames that are not free leave room in the free count. -/
theorem Inv.freeFrames_add_card_le (hS : ∀ i ∈ S, i < a.totalFrames ∧ a.frameState i ≠ .free) :
    a.freeFrames + S.card ≤ a.totalFrames := by
  rw [h.free_count, ← Finset.card_union_of_disjoint (disjoint_freeIndices fun i hi => (hS i hi).2)]
  calc (a.freeIndices ∪ S).card ≤ (Finset.range a.totalFrames).card := by
        apply Finset.card_le_card
        apply Finset.union_subset (Finset.filter_subset _ _)
        exact fun i hi => Finset.mem_range.mpr (hS i hi).1
    _ = a.totalFrames := Finset.card_range _

/-! ## The plain map -/

/-- `index_for_address` finds the index of every frame. -/
theorem Inv.indexForAddress_eq_some : a.indexForAddress x = some i ↔ FrameAt a.spans i x := by
  rw [indexForAddress]
  split
  next hx =>
    simp only [reduceCtorEq, false_iff]
    intro hat
    exact hx (Nat.mod_eq_zero_of_dvd (h.layout.frameAt_bounds hat).1)
  next hx =>
    rw [not_not] at hx
    exact h.layout.indexInSpans_eq_some (Nat.dvd_of_mod_eq_zero hx)

theorem Inv.frames_eq_some :
    a.frames x = some state ↔ ∃ i, FrameAt a.spans i x ∧ a.frameState i = state := by
  simp [frames, h.indexForAddress_eq_some]

theorem Inv.frames_of_frameAt (hat : FrameAt a.spans i x) : a.frames x = some (a.frameState i) :=
  h.frames_eq_some.mpr ⟨i, hat, rfl⟩

theorem Inv.lt_total (hat : FrameAt a.spans i x) : i < a.totalFrames :=
  (h.layout.frameAt_bounds hat).2.2.1

/-- The free pages are those with a free index. -/
theorem Inv.mem_freeSet : x ∈ a.frames.freeSet ↔ ∃ i ∈ a.freeIndices, FrameAt a.spans i x := by
  rw [FrameMap.freeSet, Set.mem_ofPred_eq, h.frames_eq_some]
  constructor
  · rintro ⟨i, hat, hfree⟩
    exact ⟨i, mem_freeIndices.mpr ⟨h.lt_total hat, hfree⟩, hat⟩
  · rintro ⟨i, hmem, hat⟩
    exact ⟨i, hat, (mem_freeIndices.mp hmem).2⟩

/-- A change of frames is an assignment on the plain map. -/
theorem Inv.frames_changes (hchanges : Changes a a' S state)
    (hX : ∀ x, x ∈ X ↔ ∃ i ∈ S, FrameAt a.spans i x) :
    a'.frames = a.frames.assign X state := by
  funext x
  have hindex : a'.indexForAddress x = a.indexForAddress x := by
    rw [indexForAddress, indexForAddress, hchanges.spans]
  rw [frames, hindex]
  cases hfind : a.indexForAddress x with
  | none =>
    have hout : x ∉ X := by
      rw [hX]
      rintro ⟨i, -, hat⟩
      rw [h.indexForAddress_eq_some.mpr hat] at hfind
      cases hfind
    rw [FrameMap.assign_of_notMem hout, frames, hfind]
    rfl
  | some i =>
    have hat := h.indexForAddress_eq_some.mp hfind
    rw [Option.map_some, hchanges.frameState]
    by_cases hi : i ∈ S
    · rw [FrameMap.assign_of_mem ((hX x).mpr ⟨i, hi, hat⟩), if_pos hi]
    · have hout : x ∉ X := by
        rw [hX]
        rintro ⟨j, hj, hat'⟩
        exact hi (h.layout.index_unique hat hat' ▸ hj)
      rw [FrameMap.assign_of_notMem hout, if_neg hi, frames, hfind]
      rfl

/-- There are as many addresses as indices. -/
theorem Inv.ncard_addresses (hS : ∀ i ∈ S, i < a.totalFrames)
    (hX : ∀ x, x ∈ X ↔ ∃ i ∈ S, FrameAt a.spans i x) : X.ncard = S.card := by
  have hex : ∀ i (hi : i ∈ S), ∃ x, FrameAt a.spans i x :=
    fun i hi => h.layout.exists_address (Nat.zero_le i) (hS i hi)
  choose address haddress using hex
  rw [← Set.ncard_coe_finset]
  symm
  refine Set.ncard_congr address (fun i hi => (hX _).mpr ⟨i, hi, haddress i hi⟩) ?_ ?_
  · intro i j hi hj heq
    exact h.layout.index_unique (haddress i hi) (heq ▸ haddress j hj)
  · intro x hx
    obtain ⟨i, hi, hat⟩ := (hX x).mp hx
    exact ⟨i, hi, h.layout.address_unique (haddress i hi) hat⟩

/-- The reported free count is the number of free frames. -/
theorem Inv.freeFrames_eq : a.freeFrames = a.frames.freeSet.ncard := by
  rw [h.free_count]
  symm
  exact h.ncard_addresses (fun i hi => (mem_freeIndices.mp hi).1) fun x => h.mem_freeSet

end

/-! ## Bits -/

section

variable (hi : i < a.totalFrames)
include hi

theorem bitmapLocation_of_lt : a.bitmapLocation i = .ok (i / 64, bitMask i) := by
  rw [bitmapLocation, rejectIf, if_neg (Nat.not_le.mpr hi)]
  rfl

theorem isAllocated_of_lt : a.isAllocated i = .ok (testBit a.allocatedBitmap i) := by
  rw [isAllocated, bitmapLocation_of_lt hi]
  rfl

theorem isReserved_of_lt : a.isReserved i = .ok (testBit a.reservedBitmap i) := by
  rw [isReserved, bitmapLocation_of_lt hi]
  rfl

/-- A frame is unavailable unless it is free. -/
theorem isUnavailable_of_lt : a.isUnavailable i = .ok (decide (a.frameState i ≠ .free)) := by
  rw [isUnavailable, isAllocated_of_lt hi, isReserved_of_lt hi, frameState]
  cases testBit a.allocatedBitmap i <;> cases testBit a.reservedBitmap i <;> rfl

theorem wp_setAllocated {b : Bool} : (setAllocated i b).wp Q R a ↔
      Q () { a with allocatedBitmap :=
        if b then setBit a.allocatedBitmap i else clearBit a.allocatedBitmap i } := by
  simp only [setAllocated, Act.wp_bind, Act.wp_get, bitmapLocation_of_lt hi]
  cases b <;> rfl

theorem wp_markReserved : (markReserved i).wp Q R a ↔
      Q () { a with reservedBitmap := setBit a.reservedBitmap i } := by
  simp only [markReserved, Act.wp_bind, Act.wp_get, bitmapLocation_of_lt hi]
  rfl

end

/-- The checks before a release pass exactly on allocated frames. -/
theorem Inv.checkAllocated_eq_ok (h : Inv usable a) :
    a.checkAllocated x = .ok i ↔ FrameAt a.spans i x ∧ a.frameState i = .allocated := by
  simp only [checkAllocated, ok_rules, h.indexForAddress_eq_some]
  constructor
  · rintro ⟨j, hat, reserved, hreserved, -, hnot, allocated, hallocated, -, hyes, hj⟩
    cases hj
    rw [isReserved_of_lt (h.lt_total hat)] at hreserved
    rw [isAllocated_of_lt (h.lt_total hat)] at hallocated
    cases hreserved
    cases hallocated
    refine ⟨hat, ?_⟩
    simp_all [frameState]
  · rintro ⟨hat, hstate⟩
    refine ⟨i, hat, false, ?_, (), by simp, true, ?_, (), by simp, rfl⟩
    · rw [isReserved_of_lt (h.lt_total hat)]
      rw [frameState] at hstate
      split at hstate <;> simp_all
    · rw [isAllocated_of_lt (h.lt_total hat)]
      rw [frameState] at hstate
      split at hstate <;> simp_all

/-- The error tells a free page from one that is not managed. -/
theorem Inv.checkAllocated_eq_error (h : Inv usable a) {e : FrameAllocationError}
    (he : a.checkAllocated x = .error e) :
    a.frames x ≠ some .allocated ∧
      e = if a.frames x = some .free then .doubleFree else .invalidFrame := by
  constructor
  · intro hstate
    obtain ⟨i, hat, hallocated⟩ := h.frames_eq_some.mp hstate
    rw [h.checkAllocated_eq_ok.mpr ⟨hat, hallocated⟩] at he
    cases he
  · cases hfind : a.indexForAddress x with
    | none =>
      rw [checkAllocated, hfind] at he
      cases he
      rw [frames, hfind]
      rfl
    | some i =>
      have hat := h.indexForAddress_eq_some.mp hfind
      rw [checkAllocated, hfind] at he
      rw [h.frames_of_frameAt hat, frameState]
      change (a.isReserved i >>= _) = _ at he
      rw [isReserved_of_lt (h.lt_total hat), isAllocated_of_lt (h.lt_total hat)] at he
      cases hr : testBit a.reservedBitmap i <;> cases ha : testBit a.allocatedBitmap i
        <;> rw [hr, ha] at he <;> cases he <;> rfl

end FrameAllocator

end Troe.Memory
