import Troe.Memory.FrameInvariant

/-!
# The operations of the frame allocator against the plain map

Every call keeps the invariant and answers as `FrameMap.Step` allows (`Simulates`).
-/

namespace Troe.Memory.FrameAllocator

open Lib
open Act (wp_bind wp_forEach wp_ite wp_mono wp_ok_mono wp_okOr)
open List (mem_cons mem_map mem_range mem_toFinset)

variable {a a' a'' : FrameAllocator} {state : FrameState} {i x : ℕ}
  {usable : List PhysicalRange} {first : ℕ} {frames : List ℕ} {Q : Unit → FrameAllocator → Prop}
  {R : FrameAllocationError → FrameAllocator → Prop} {range : PhysicalRange}

/-! ## Single frames -/

/-- A call keeps the invariant and answers as the plain map allows; a refused call changes
nothing at all. -/
def Simulates (usable : List PhysicalRange) (a : FrameAllocator) (call : FrameCall) : Prop :=
  (perform call).wp
    (fun reply a' => Inv usable a' ∧ FrameMap.Step usable a.frames call (.ok reply) a'.frames)
    (fun e a' => a' = a ∧ FrameMap.Step usable a.frames call (.error e) a.frames) a

theorem Inv.freeFrames_le (h : Inv usable a) : a.freeFrames ≤ a.totalFrames := by
  have := h.freeFrames_add_card_le (S := ∅) (by simp)
  simpa using this

theorem Inv.freeSet_eq_empty (h : Inv usable a)
    (hnone : ∀ i < a.totalFrames, a.frameState i ≠ .free) : a.frames.freeSet = ∅ := by
  rw [Set.eq_empty_iff_forall_notMem]
  intro x hx
  obtain ⟨i, hi, -⟩ := h.mem_freeSet.mp hx
  obtain ⟨hlt, hfree⟩ := mem_freeIndices.mp hi
  exact hnone i hlt hfree

/-- One frame changed: one address is assigned. -/
theorem Inv.frames_change_one (h : Inv usable a) (hchanges : Changes a a' {i} state)
    (hat : FrameAt a.spans i x) : a'.frames = a.frames.assign {x} state := by
  apply h.frames_changes hchanges
  intro y
  constructor
  · rintro rfl
    exact ⟨i, Finset.mem_singleton_self i, hat⟩
  · rintro ⟨j, hj, hat'⟩
    rw [Finset.mem_singleton] at hj
    subst hj
    exact h.layout.address_unique hat' hat

/-- `allocate` takes the lowest free frame. -/
theorem Inv.simulates_allocate (h : Inv usable a) : Simulates usable a .allocate := by
  unfold Simulates perform allocate
  simp only [wp_rules, true_and]
  refine ⟨fun hzero => .allocateRefused ?_, fun _ => ?_⟩
  · rw [h.free_count, Finset.card_eq_zero] at hzero
    apply h.freeSet_eq_empty
    intro i hi hfree
    have : i ∈ a.freeIndices := mem_freeIndices.mpr ⟨hi, hfree⟩
    rw [hzero] at this
    cases this
  apply Act.wp_firstSome fun i => a.frameState i ≠ .free
  · intro passed i rest hrange hpassed
    have hi : i < a.totalFrames := by
      rw [← mem_range, hrange]
      simp
    simp only [wp_rules, isUnavailable_of_lt hi]
    refine ⟨?_, by simp⟩
    rintro _ ⟨⟩
    by_cases hstate : a.frameState i = .free
    · -- the frame is taken: everything below it was passed over
      obtain ⟨x, hat⟩ := h.layout.exists_address (Nat.zero_le i) hi
      have haddress : addressInSpans a.spans i = some x :=
        h.layout.addressInSpans_eq_some.mpr hat
      have hchanges := (changes_setAllocated (hi.trans_le h.allocated_length)
        (by simp [hstate])).withFree (a.freeFrames - 1)
      have hfree : i ∈ a.freeIndices := mem_freeIndices.mpr ⟨hi, hstate⟩
      rw [if_neg (by simpa using hstate)]
      simp only [wp_known, wp_setAllocated hi, if_true, addressForIndex, haddress, true_and]
      refine ⟨h.take hchanges (by decide) (by simpa using hfree) rfl, ?_⟩
      rw [h.frames_change_one hchanges hat]
      refine .allocate ⟨h.mem_freeSet.mpr ⟨i, hfree, hat⟩, fun y hy => ?_⟩
      obtain ⟨j, hj, hat'⟩ := h.mem_freeSet.mp hy
      by_contra hlt
      have hji : j < i := (h.layout.lt_iff hat' hat).mpr (by omega)
      exact hpassed j (mem_of_range_eq_append hrange hji) (mem_freeIndices.mp hj).2
    · rw [if_pos (by simpa using hstate)]
      exact ⟨fun _ => ⟨rfl, hstate⟩, by simp⟩
  · intro hall
    exact ⟨rfl, .allocateRefused (h.freeSet_eq_empty fun i hi => hall i (mem_range.mpr hi))⟩

/-- `free` releases an allocated frame. -/
theorem Inv.simulates_free (h : Inv usable a) (x : ℕ) : Simulates usable a (.free x) := by
  unfold Simulates perform free
  simp only [wp_rules]
  constructor
  · intro i hi
    obtain ⟨hat, hstate⟩ := h.checkAllocated_eq_ok.mp hi
    have hlt := h.lt_total hat
    have htotal := h.layout.total_lt
    have hcount := h.freeFrames_le
    have hsum : checkedAdd 64 a.freeFrames 1 = some (a.freeFrames + 1) := by
      rw [checkedAdd_eq_some]
      omega
    have hchanges := (changes_clearAllocated (hlt.trans_le h.allocated_length)
      (by simp [hstate])).withFree (a.freeFrames + 1)
    simp only [wp_setAllocated hlt, wp_known, hsum, if_false, Bool.false_eq_true]
    refine ⟨h.giveBack hchanges (by simp [hlt, hstate]) rfl, ?_⟩
    rw [h.frames_change_one hchanges hat]
    exact .free (h.frames_eq_some.mpr ⟨i, hat, hstate⟩)
  · intro e he
    obtain ⟨hforeign, rfl⟩ := h.checkAllocated_eq_error he
    exact ⟨trivial, .freeRefused hforeign⟩

/-! ## Runs of frames -/

theorem mem_frameRange {finish : ℕ} : i ∈ frameRange first finish ↔ first ≤ i ∧ i < finish := by
  simp only [frameRange, mem_map, mem_range]
  constructor
  · rintro ⟨k, hk, rfl⟩
    omega
  · rintro ⟨hle, hlt⟩
    exact ⟨i - first, by omega, by omega⟩

theorem card_frameRange {count : ℕ} : (frameRange first (first + count)).toFinset.card = count := by
  rw [List.toFinset_card_of_nodup]
  · simp [frameRange]
  · exact List.Nodup.map (fun x y hxy => Nat.add_left_cancel hxy) List.nodup_range

theorem allAvailable_of_lt (hlt : ∀ i ∈ frames, i < a.totalFrames) :
    a.allAvailable frames = .ok (decide (∀ i ∈ frames, a.frameState i = .free)) := by
  induction frames with
  | nil => simp [allAvailable]
  | cons i frames ih =>
    obtain ⟨hi, hframes⟩ := List.forall_mem_cons.mp hlt
    rw [allAvailable, isUnavailable_of_lt hi, ih hframes]
    by_cases hstate : a.frameState i = .free
    · simp [hstate, Bind.bind, Except.bind]
    · simp [hstate, Bind.bind, Except.bind, Pure.pure, Except.pure]

/-- Marking a list of free frames. -/
theorem Inv.wp_setAll (h : Inv usable a) (hfree : ∀ i ∈ frames, i ∈ a.freeIndices)
    (hQ : ∀ a', Changes a a' frames.toFinset .allocated → Q () a') :
    (Act.forEach frames fun frame => setAllocated frame true).wp Q R a := by
  apply wp_forEach fun visited a' => Changes a a' visited.toFinset .allocated
  · exact Changes.refl a _
  · intro visited i a' hi hchanges
    obtain ⟨hlt, hstate⟩ := mem_freeIndices.mp (hfree i hi)
    rw [wp_setAllocated (hchanges.total ▸ hlt)]
    have hnot : a'.frameState i ≠ .reserved := by
      rw [hchanges.frameState]
      split <;> simp [hstate]
    have hone := changes_setAllocated
      (hchanges.allocated_length ▸ hlt.trans_le h.allocated_length) hnot
    rw [List.toFinset_append]
    exact hchanges.trans hone
  · exact hQ

/-- The candidate range of `allocate_contiguous` at page `localStart` of a span. -/
def runAt (span : FrameSpan) (localStart pageCount : ℕ) : PhysicalRange where
  start := span.range.start + localStart * basePageSize
  finish := span.range.start + localStart * basePageSize + pageCount * basePageSize

section

variable {span : FrameSpan} {localStart pageCount alignmentPages : ℕ}

theorem runAt_valid (hvalid : span.range.Valid) (hn : pageCount ≠ 0)
    (hfit : localStart + pageCount ≤ span.range.pageCount) :
    (runAt span localStart pageCount).Valid := by
  have hstart : basePageSize ∣ span.range.start + localStart * basePageSize :=
    Nat.dvd_add hvalid.start_aligned (Nat.dvd_mul_left _ _)
  have hfinish := hvalid.finish_eq
  have hlt := hvalid.finish_lt
  refine ⟨hstart, Nat.dvd_add hstart (Nat.dvd_mul_left _ _), ?_, ?_⟩
  · simp only [runAt, basePageSize]
    omega
  · simp only [runAt, basePageSize] at *
    omega

theorem runAt_pageCount : (runAt span localStart pageCount).pageCount = pageCount :=
  PhysicalRange.pageCount_mk _ _

variable (h : Inv usable a)
include h

section

variable (hspan : span ∈ a.spans)
include hspan

/-- The frames of a candidate range. -/
theorem Inv.mem_pages_runAt (hn : pageCount ≠ 0)
    (hfit : localStart + pageCount ≤ span.range.pageCount) (x : ℕ) :
    x ∈ (runAt span localStart pageCount).pages ↔
      ∃ i ∈ (frameRange (span.firstFrame + localStart)
        (span.firstFrame + localStart + pageCount)).toFinset, FrameAt a.spans i x := by
  obtain ⟨hvalid, -⟩ := h.layout.of_mem hspan
  have hat : ∀ k < pageCount, FrameAt a.spans (span.firstFrame + localStart + k)
      (span.range.start + localStart * basePageSize + k * basePageSize) := by
    intro k hk
    exact ⟨span, hspan, localStart + k, by omega, by omega, by rw [Nat.add_mul, Nat.add_assoc]⟩
  rw [(runAt_valid hvalid hn hfit).mem_pages, runAt_pageCount]
  constructor
  · rintro ⟨k, hk, rfl⟩
    refine ⟨span.firstFrame + localStart + k, ?_, hat k hk⟩
    rw [mem_toFinset, mem_frameRange]
    omega
  · rintro ⟨i, hi, hix⟩
    rw [mem_toFinset, mem_frameRange] at hi
    obtain ⟨k, rfl⟩ := Nat.exists_eq_add_of_le hi.1
    exact ⟨k, by omega, h.layout.address_unique hix (hat k (by omega))⟩

theorem Inv.frameRange_subset (hfit : localStart + pageCount ≤ span.range.pageCount)
    (hfree : ∀ i ∈ frameRange (span.firstFrame + localStart)
      (span.firstFrame + localStart + pageCount), a.frameState i = .free) :
    (frameRange (span.firstFrame + localStart)
      (span.firstFrame + localStart + pageCount)).toFinset ⊆ a.freeIndices := by
  obtain ⟨-, -, -, hlast⟩ := h.layout.of_mem hspan
  intro i hi
  rw [mem_toFinset] at hi
  have hbounds := mem_frameRange.mp hi
  exact mem_freeIndices.mpr ⟨by omega, hfree i hi⟩

/-- A candidate range is a free run exactly when it is aligned and its frames are free. -/
theorem Inv.freeRun_runAt_iff (hn : pageCount ≠ 0)
    (hfit : localStart + pageCount ≤ span.range.pageCount) (alignmentPages : ℕ) :
    FrameMap.FreeRun usable a.frames pageCount alignmentPages (runAt span localStart pageCount) ↔
      alignmentPages * basePageSize ∣ span.range.start + localStart * basePageSize ∧
      ∀ i ∈ frameRange (span.firstFrame + localStart) (span.firstFrame + localStart + pageCount),
        a.frameState i = .free := by
  obtain ⟨hvalid, -, -, hlast⟩ := h.layout.of_mem hspan
  have hpages := h.mem_pages_runAt hspan hn hfit
  constructor
  · rintro ⟨-, -, haligned, hfree⟩
    refine ⟨haligned, fun i hi => ?_⟩
    have hrange := mem_frameRange.mp hi
    obtain ⟨x, hat⟩ := h.layout.exists_address (Nat.zero_le i) (by omega)
    obtain ⟨j, hj, hat'⟩ := h.mem_freeSet.mp (hfree ((hpages x).mpr ⟨i, mem_toFinset.mpr hi, hat⟩))
    exact h.layout.index_unique hat hat' ▸ (mem_freeIndices.mp hj).2
  · rintro ⟨haligned, hfree⟩
    refine ⟨⟨span.range, ?_, ?_, ?_⟩, rfl, haligned, fun x hx => ?_⟩
    · rw [← h.ranges]
      exact List.mem_map_of_mem hspan
    · exact Nat.le_add_right _ _
    · rw [hvalid.finish_eq]
      simp only [runAt, basePageSize]
      omega
    · obtain ⟨i, hi, hat⟩ := (hpages x).mp hx
      rw [mem_toFinset] at hi
      exact h.frames_eq_some.mpr ⟨i, hat, hfree i hi⟩

/-- One candidate of `allocate_contiguous`: the run is taken when it is aligned and free. -/
theorem Inv.wp_allocateAt (hn : pageCount ≠ 0) (hpow : isPowerOfTwo alignmentPages = true)
    (hfit : localStart + pageCount ≤ span.range.pageCount) (henough : pageCount ≤ a.freeFrames) :
    (allocateAt pageCount alignmentPages span localStart).wp
      (fun r a' => (r = none → a' = a ∧ ¬ FrameMap.FreeRun usable a.frames pageCount alignmentPages
          (runAt span localStart pageCount)) ∧
        ∀ range, r = some range → Inv usable a' ∧
          FrameMap.Step usable a.frames (.allocateContiguous pageCount alignmentPages)
            (.ok (.range range)) a'.frames)
      (fun _ a' => a' = a ∧ ¬ alignmentPages * basePageSize < 2 ^ 64) a := by
  obtain ⟨hvalid, -, -, hlast⟩ := h.layout.of_mem hspan
  have hfinish := hvalid.finish_eq
  have hlt := hvalid.finish_lt
  have htotal := h.layout.total_lt
  have hrun := h.freeRun_runAt_iff hspan hn hfit alignmentPages
  have hbelow : span.range.start + localStart * basePageSize < 2 ^ 64 := by
    simp only [basePageSize] at *
    omega
  -- inside a span none of the checked sums and products overflows
  have hoffset : checkedMul 64 localStart basePageSize = some (localStart * basePageSize) :=
    checkedMul_eq_some.mpr ⟨by omega, rfl⟩
  have haddress : checkedAdd 64 span.range.start (localStart * basePageSize)
      = some (span.range.start + localStart * basePageSize) :=
    checkedAdd_eq_some.mpr ⟨hbelow, rfl⟩
  have hfirst : checkedAdd 64 span.firstFrame localStart = some (span.firstFrame + localStart) := by
    rw [checkedAdd_eq_some]
    omega
  have hend : checkedAdd 64 (span.firstFrame + localStart) pageCount
      = some (span.firstFrame + localStart + pageCount) := by
    rw [checkedAdd_eq_some]
    omega
  have hsub : checkedSub a.freeFrames pageCount = some (a.freeFrames - pageCount) := by
    rw [checkedSub_eq_some]
    omega
  have hframes : ∀ i ∈ frameRange (span.firstFrame + localStart)
      (span.firstFrame + localStart + pageCount), i < a.totalFrames := by
    intro i hi
    have := mem_frameRange.mp hi
    omega
  have hrange : PhysicalRange.fromPages (span.range.start + localStart * basePageSize) pageCount
      = .ok (runAt span localStart pageCount) := by
    have hv := runAt_valid hvalid hn hfit
    exact PhysicalRange.fromPages_eq_ok.mpr
      ⟨Nat.mod_eq_zero_of_dvd hv.start_aligned, hn, hv.finish_lt, rfl⟩
  unfold allocateAt
  simp only [wp_bind, Act.wp_get, wp_okOr, hoffset, haddress, checkedMul_eq_some,
    Option.some.injEq, reduceCtorEq, false_imp_iff, and_true, forall_eq', and_imp]
  refine ⟨?_, fun hnone => ⟨trivial, ?_⟩⟩
  swap
  · -- the one error that is left: the alignment in bytes has no 64-bit value
    intro hsize
    have : checkedMul 64 alignmentPages basePageSize = some (alignmentPages * basePageSize) :=
      checkedMul_eq_some.mpr ⟨hsize, rfl⟩
    rw [this] at hnone
    cases hnone
  rintro _ hsize rfl
  rw [wp_ite]
  refine ⟨fun hmod => ⟨fun _ => ⟨rfl, ?_⟩, by simp⟩, fun hmod => ?_⟩
  · intro hfree
    exact hmod (Nat.mod_eq_zero_of_dvd (hrun.mp hfree).1)
  rw [not_not] at hmod
  simp only [wp_bind, wp_okOr, hfirst, hend, allAvailable_of_lt hframes, Act.wp_ofExcept,
    Option.some.injEq, reduceCtorEq, false_imp_iff, and_true, forall_eq', implies_true,
    Except.ok.injEq]
  rw [wp_ite]
  refine ⟨fun hbusy => ⟨fun _ => ⟨rfl, ?_⟩, by simp⟩, fun hfree => ?_⟩
  · intro hfree
    simp only [decide_eq_false_iff_not] at hbusy
    exact hbusy (hrun.mp hfree).2
  have hall : ∀ i ∈ frameRange (span.firstFrame + localStart)
      (span.firstFrame + localStart + pageCount), a.frameState i = .free := by
    simpa using hfree
  have hsubset := h.frameRange_subset hspan hfit hall
  simp only [wp_bind, wp_okOr, hsub, Option.some.injEq, reduceCtorEq, false_imp_iff,
    and_true, forall_eq']
  apply h.wp_setAll fun i hi => hsubset (mem_toFinset.mpr hi)
  intro a' hchanges
  simp only [Act.wp_modify, hrange, Act.wp_ofExcept, Except.mapError, Except.ok.injEq, forall_eq',
    reduceCtorEq, false_imp_iff, implies_true, and_true, Act.wp_pure, Option.some.injEq, true_and]
  have hwith := hchanges.withFree (a.freeFrames - pageCount)
  refine ⟨h.take hwith (by decide) hsubset (by rw [card_frameRange]), ?_⟩
  · rw [h.frames_changes hwith (h.mem_pages_runAt hspan hn hfit)]
    exact .allocateContiguous ⟨hn, hpow, hsize⟩ (hrun.mpr ⟨Nat.dvd_of_mod_eq_zero hmod, hall⟩)

end

/-- Every aligned run inside a usable range is one of the candidates. -/
theorem Inv.freeRun_eq_runAt {range : PhysicalRange}
    (hrun : FrameMap.FreeRun usable a.frames pageCount alignmentPages range) :
    ∃ span ∈ a.spans, ∃ localStart, localStart + pageCount ≤ span.range.pageCount ∧
      range = runAt span localStart pageCount := by
  obtain ⟨⟨r, hr, hstart, hfinish⟩, hlength, haligned, -⟩ := hrun
  rw [← h.ranges, mem_map] at hr
  obtain ⟨span, hspan, rfl⟩ := hr
  obtain ⟨hvalid, -⟩ := h.layout.of_mem hspan
  obtain ⟨c, hc⟩ := hvalid.start_aligned
  obtain ⟨d, hd⟩ : basePageSize ∣ range.start := Dvd.dvd.trans (Nat.dvd_mul_left _ _) haligned
  have hspanEnd := hvalid.finish_eq
  simp only [basePageSize] at *
  refine ⟨span, hspan, d - c, by omega, ?_⟩
  obtain ⟨start, finish⟩ := range
  simp only [runAt, PhysicalRange.mk.injEq, basePageSize]
  simp only at *
  omega

/-- One span of `allocate_contiguous`: a run is taken, or none of its candidates is one. -/
theorem Inv.wp_allocateInSpan (hspan : span ∈ a.spans) (hn : pageCount ≠ 0)
    (hpow : isPowerOfTwo alignmentPages = true) (henough : pageCount ≤ a.freeFrames) :
    (allocateInSpan pageCount alignmentPages span).wp
      (fun r a' => (r = none → a' = a ∧ ∀ localStart,
          localStart + pageCount ≤ span.range.pageCount → ¬ FrameMap.FreeRun usable a.frames
            pageCount alignmentPages (runAt span localStart pageCount)) ∧
        ∀ range, r = some range → Inv usable a' ∧
          FrameMap.Step usable a.frames (.allocateContiguous pageCount alignmentPages)
            (.ok (.range range)) a'.frames)
      (fun _ a' => a' = a ∧ ¬ alignmentPages * basePageSize < 2 ^ 64) a := by
  rw [allocateInSpan, wp_ite]
  refine ⟨fun hshort => ⟨fun _ => ⟨rfl, fun localStart hfit => by omega⟩, by simp⟩, fun hlong => ?_⟩
  have hsub : checkedSub span.range.pageCount pageCount
      = some (span.range.pageCount - pageCount) := by
    rw [checkedSub_eq_some]
    omega
  simp only [wp_known, hsub]
  apply Act.wp_firstSome fun localStart => ¬ FrameMap.FreeRun usable a.frames pageCount
    alignmentPages (runAt span localStart pageCount)
  · intro passed localStart rest hstarts _
    have hmem : localStart ∈ List.range (span.range.pageCount - pageCount + 1) := by
      rw [hstarts]
      simp
    rw [mem_range] at hmem
    apply wp_ok_mono (h.wp_allocateAt hspan hn hpow (by omega) henough)
    rintro r a' ⟨hnone, hsome⟩
    refine ⟨hnone, fun range hrange => ⟨by simp, ?_⟩⟩
    rintro _ ⟨⟩
    exact hsome range hrange
  · intro hstarts
    refine ⟨fun _ => ⟨rfl, fun localStart hfit => ?_⟩, by simp⟩
    exact hstarts localStart (mem_range.mpr (by omega))

/-- `allocate_contiguous` succeeds exactly when there is an aligned free run. -/
theorem Inv.simulates_allocateContiguous (pageCount alignmentPages : ℕ) :
    Simulates usable a (.allocateContiguous pageCount alignmentPages) := by
  unfold Simulates perform allocateContiguous
  simp only [wp_rules, true_and]
  refine ⟨fun hbad => .allocateContiguousRefused ?_,
    fun hgood => ⟨fun hfew => .allocateContiguousRefused ?_, fun henough => ?_⟩⟩
  · rintro ⟨⟨hn, hpow, -⟩, -⟩
    rcases hbad with hbad | rfl | hbad
    · exact hn hbad
    · simp [isPowerOfTwo] at hpow
    · exact hbad hpow
  · rintro ⟨⟨hn, -⟩, range, hrun⟩
    obtain ⟨span, hspan, localStart, hfit, rfl⟩ := h.freeRun_eq_runAt hrun
    obtain ⟨-, hall⟩ := (h.freeRun_runAt_iff hspan hn hfit _).mp hrun
    -- the run alone has more free frames than the count says
    have hcard := Finset.card_le_card (h.frameRange_subset hspan hfit hall)
    rw [card_frameRange, ← h.free_count] at hcard
    omega
  · have hn : pageCount ≠ 0 := fun hzero => hgood (.inl hzero)
    have hpow : isPowerOfTwo alignmentPages = true := by
      by_contra hpow
      exact hgood (.inr (.inr hpow))
    apply Act.wp_firstSome fun span => ∀ localStart, localStart + pageCount ≤ span.range.pageCount →
        ¬ FrameMap.FreeRun usable a.frames pageCount alignmentPages (runAt span localStart pageCount)
    · intro passed span rest hspans _
      have hspan : span ∈ a.spans := by
        rw [hspans]
        simp
      apply wp_mono (h.wp_allocateInSpan hspan hn hpow (by omega))
      · exact fun r a' hr => hr
      · rintro e a' ⟨rfl, hsize⟩
        exact ⟨rfl, .allocateContiguousRefused fun hadmitted => hsize hadmitted.1.2.2⟩
    · intro hall
      refine ⟨rfl, .allocateContiguousRefused ?_⟩
      rintro ⟨-, range, hrun⟩
      obtain ⟨span, hspan, localStart, hfit, rfl⟩ := h.freeRun_eq_runAt hrun
      exact hall span hspan localStart hfit hrun

end

/-! ## Reservation -/

/-- From `a` to `a'` the free frames that `p` names were reserved and added to the count. -/
def Reserves (usable : List PhysicalRange) (a : FrameAllocator) (p : ℕ → Prop) (count count' : ℕ)
    (a' : FrameAllocator) : Prop :=
  ∃ S, (∀ i, i ∈ S ↔ i ∈ a.freeIndices ∧ p i) ∧ Changes a a' S .reserved ∧ Inv usable a' ∧
    count' = count + S.card

section

variable {p q : ℕ → Prop} {count count' count'' : ℕ}

theorem Inv.reserves_none (h : Inv usable a) (hp : ∀ i ∈ a.freeIndices, ¬ p i) :
    Reserves usable a p count count a := by
  refine ⟨∅, fun i => ?_, Changes.refl a _, h, rfl⟩
  simp only [Finset.notMem_empty, false_iff, not_and]
  exact hp i

theorem Inv.reserves_one (h : Inv usable a) (hfree : i ∈ a.freeIndices) (count : ℕ) :
    Reserves usable a (· = i) count (count + 1) { a with
      reservedBitmap := setBit a.reservedBitmap i, freeFrames := a.freeFrames - 1 } := by
  have hi := (mem_freeIndices.mp hfree).1
  have hchanges := (changes_markReserved (hi.trans_le h.reserved_length)).withFree
    (a.freeFrames - 1)
  refine ⟨{i}, fun j => ?_, hchanges, h.take hchanges (by decide) (by simpa using hfree) rfl, rfl⟩
  rw [Finset.mem_singleton]
  exact ⟨fun hj => ⟨hj ▸ hfree, hj⟩, fun hj => hj.2⟩

theorem Reserves.inv (h : Reserves usable a p count count' a') : Inv usable a' := by
  obtain ⟨S, -, -, hinv, -⟩ := h
  exact hinv

theorem Reserves.trans (h : Reserves usable a p count count' a')
    (h' : Reserves usable a' q count' count'' a'') :
    Reserves usable a (fun i => p i ∨ q i) count count'' a'' := by
  obtain ⟨S, hS, hchanges, -, rfl⟩ := h
  obtain ⟨T, hT, hchanges', hinv, rfl⟩ := h'
  -- what the second step found free had not been reserved by the first
  have hfree : ∀ i, i ∈ a'.freeIndices ↔ i ∈ a.freeIndices ∧ i ∉ S := by
    intro i
    rw [mem_freeIndices, mem_freeIndices, hchanges.total, hchanges.frameState]
    by_cases hi : i ∈ S <;> simp [hi]
  refine ⟨S ∪ T, fun i => ?_, hchanges.trans hchanges', hinv, ?_⟩
  · rw [Finset.mem_union, hT, hfree, hS]
    tauto
  · rw [Finset.card_union_of_disjoint, Nat.add_assoc]
    rw [Finset.disjoint_left]
    intro i hi hiT
    exact ((hfree i).mp ((hT i).mp hiT).1).2 hi

/-- Frames move from the free count to the reserved count. -/
theorem Reserves.add_freeFrames (h : Inv usable a) (hr : Reserves usable a p count count' a') :
    count' + a'.freeFrames = count + a.freeFrames := by
  obtain ⟨S, hS, hchanges, hinv, rfl⟩ := hr
  have hsubset : S ⊆ a.freeIndices := fun i hi => ((hS i).mp hi).1
  have hfree : a'.freeIndices = a.freeIndices \ S := by
    ext i
    rw [Finset.mem_sdiff, mem_freeIndices, mem_freeIndices, hchanges.total, hchanges.frameState]
    by_cases hi : i ∈ S <;> simp [hi]
  have hle := Finset.card_le_card hsubset
  rw [hinv.free_count, hfree, Finset.card_sdiff_of_subset hsubset, h.free_count]
  omega

/-- The inner loop of `reserve_range`. -/
theorem Inv.wp_reserveFrames {frames : List ℕ} (h : Inv usable a)
    (hlt : ∀ i ∈ frames, i < a.totalFrames) (hcount : count + a.freeFrames < 2 ^ 64) :
    (reserveFrames frames count).wp (Reserves usable a (· ∈ frames) count) (fun _ _ => False) a := by
  induction frames generalizing a count with
  | nil => exact h.reserves_none (by simp)
  | cons i frames ih =>
    obtain ⟨hi, hframes⟩ := List.forall_mem_cons.mp hlt
    rw [reserveFrames]
    simp only [wp_quiet, isUnavailable_of_lt hi, Except.ok.injEq, forall_eq', reduceCtorEq,
      false_imp_iff]
    by_cases hstate : a.frameState i = .free
    · have hfree : i ∈ a.freeIndices := mem_freeIndices.mpr ⟨hi, hstate⟩
      have hpos : 0 < a.freeFrames := by
        rw [h.free_count]
        exact Finset.card_pos.mpr ⟨i, hfree⟩
      have hsub : checkedSub a.freeFrames 1 = some (a.freeFrames - 1) := by
        rw [checkedSub_eq_some]
        omega
      have hadd : checkedAdd 64 count 1 = some (count + 1) := by
        rw [checkedAdd_eq_some]
        omega
      rw [if_neg (by simpa using hstate)]
      simp only [wp_known, hsub, hadd, wp_markReserved hi]
      have hone := h.reserves_one hfree count
      have hsum := hone.add_freeFrames h
      apply wp_ok_mono (ih hone.inv hframes (hsum ▸ hcount))
      intro r a' hrest
      have := hone.trans hrest
      simpa only [← mem_cons] using this
    · rw [if_pos (by simpa using hstate)]
      apply wp_ok_mono (ih h hframes hcount)
      intro r a' hrest
      have hskip : Reserves usable a (· = i) count count a := by
        apply h.reserves_none
        rintro j hj rfl
        exact hstate (mem_freeIndices.mp hj).2
      have := hskip.trans hrest
      simpa only [← mem_cons] using this

/-- The indices `reserve_range` visits in one span are the frames of the range in it. -/
theorem mem_overlap {span : FrameSpan} {range : PhysicalRange} (hspan : span.range.Valid)
    (hrange : range.Valid)
    (h : max span.range.start range.start < min span.range.finish range.finish) :
    i ∈ frameRange
        (span.firstFrame + (max span.range.start range.start - span.range.start) / basePageSize)
        (span.firstFrame + (max span.range.start range.start - span.range.start) / basePageSize
          + (min span.range.finish range.finish - max span.range.start range.start)
            / basePageSize) ↔
      ∃ x ∈ range.pages, span.FrameAt i x := by
  obtain ⟨b, hb⟩ := hspan.start_aligned
  obtain ⟨c, hc⟩ := hspan.finish_aligned
  obtain ⟨d, hd⟩ := hrange.start_aligned
  obtain ⟨e, he⟩ := hrange.finish_aligned
  have hcount : span.range.pageCount = c - b := by
    rw [PhysicalRange.pageCount, PhysicalRange.byteCount, hb, hc, ← Nat.mul_sub]
    exact Nat.mul_div_cancel_left _ (by decide)
  rw [mem_frameRange]
  simp only [FrameSpan.FrameAt, PhysicalRange.pages, Set.mem_ofPred_eq, hcount, hb, hc, hd, he,
    basePageSize] at *
  constructor
  · intro hi
    refine ⟨4096 * b + (i - span.firstFrame) * 4096, ⟨by omega, by omega, by omega⟩,
      i - span.firstFrame, by omega, by omega, rfl⟩
  · rintro ⟨x, ⟨-, hstart, hfinish⟩, k, hk, rfl, rfl⟩
    omega

/-- The outer loop of `reserve_range`. -/
theorem Inv.wp_reserveSpans {range : PhysicalRange} (hvalid : range.Valid) {spans : List FrameSpan}
    (h : Inv usable a) (hspans : ∀ span ∈ spans, span ∈ a.spans)
    (hcount : count + a.freeFrames < 2 ^ 64) :
    (reserveSpans range spans count).wp
      (Reserves usable a (fun i => ∃ x ∈ range.pages, FrameAt spans i x) count)
      (fun _ _ => False) a := by
  induction spans generalizing a count with
  | nil =>
    apply h.reserves_none
    rintro i - ⟨x, -, span, hspan, -⟩
    cases hspan
  | cons span spans ih =>
    obtain ⟨hspan, hrest⟩ := List.forall_mem_cons.mp hspans
    obtain ⟨hvspan, -, -, hlast⟩ := h.layout.of_mem hspan
    have hsplit : ∀ i, (∃ x ∈ range.pages, FrameAt (span :: spans) i x) ↔
        (∃ x ∈ range.pages, span.FrameAt i x) ∨ ∃ x ∈ range.pages, FrameAt spans i x := by
      intro i
      simp only [frameAt_cons, and_or_left, exists_or]
    simp only [hsplit]
    rw [reserveSpans, wp_ite]
    refine ⟨fun hempty => ?_, fun hoverlap => ?_⟩
    · -- the span does not meet the range
      apply wp_ok_mono (ih h hrest hcount)
      intro r a' hr
      have hskip : Reserves usable a (fun i => ∃ x ∈ range.pages, span.FrameAt i x)
          count count a := by
        apply h.reserves_none
        rintro i - ⟨x, ⟨-, hstart, hfinish⟩, hat⟩
        have := hat.bounds hvspan
        omega
      exact hskip.trans hr
    · have hmem := fun i => mem_overlap (i := i) hvspan hvalid (Nat.not_le.mp hoverlap)
      set overlapStart := max span.range.start range.start with hstart
      set overlapEnd := min span.range.finish range.finish with hend
      have htotal := h.layout.total_lt
      have hbound : span.firstFrame + (overlapStart - span.range.start) / basePageSize
          + (overlapEnd - overlapStart) / basePageSize ≤ a.totalFrames := by
        have := hvspan.finish_eq
        simp only [basePageSize] at *
        omega
      have hfirst : checkedAdd 64 span.firstFrame ((overlapStart - span.range.start) / basePageSize)
          = some (span.firstFrame + (overlapStart - span.range.start) / basePageSize) :=
        checkedAdd_eq_some.mpr ⟨(Nat.le_add_right _ _).trans_lt (hbound.trans_lt (by omega)), rfl⟩
      have hlastFrame : checkedAdd 64
          (span.firstFrame + (overlapStart - span.range.start) / basePageSize)
          ((overlapEnd - overlapStart) / basePageSize)
          = some (span.firstFrame + (overlapStart - span.range.start) / basePageSize
            + (overlapEnd - overlapStart) / basePageSize) :=
        checkedAdd_eq_some.mpr ⟨by omega, rfl⟩
      simp only [wp_known, hfirst, hlastFrame]
      apply wp_mono (h.wp_reserveFrames (fun i hi => ?_) hcount)
      · intro r a' hr
        have hspans' : ∀ s ∈ spans, s ∈ a'.spans := by
          obtain ⟨S, -, hchanges, -⟩ := hr
          rw [hchanges.spans]
          exact hrest
        have hsum := hr.add_freeFrames h
        apply wp_ok_mono (ih hr.inv hspans' (hsum ▸ hcount))
        intro r' a'' hr'
        have := hr.trans hr'
        simpa only [hmem] using this
      · exact fun _ _ hfalse => hfalse.elim
      · have := mem_frameRange.mp hi
        omega

end

variable (h : Inv usable a)
include h

/-- `reserve_range` reserves the free frames of the range. -/
theorem Inv.simulates_reserveRange (range : PhysicalRange) (valid : range.Valid) :
    Simulates usable a (.reserveRange range valid) := by
  unfold Simulates perform reserveRange
  simp only [wp_rules]
  have htotal := h.layout.total_lt
  have hcount := h.freeFrames_le
  apply wp_mono (h.wp_reserveSpans valid (fun _ hspan => hspan) (by omega))
  · rintro count a' ⟨S, hS, hchanges, hinv, rfl⟩
    have hX : ∀ x, x ∈ range.pages ∩ a.frames.freeSet ↔ ∃ i ∈ S, FrameAt a.spans i x := by
      intro x
      rw [Set.mem_inter_iff, h.mem_freeSet]
      constructor
      · rintro ⟨hx, i, hi, hat⟩
        exact ⟨i, (hS i).mpr ⟨hi, x, hx, hat⟩, hat⟩
      · rintro ⟨i, hi, hat⟩
        obtain ⟨hfree, y, hy, hat'⟩ := (hS i).mp hi
        exact ⟨h.layout.address_unique hat hat' ▸ hy, i, hfree, hat⟩
    refine ⟨hinv, ?_⟩
    rw [h.frames_changes hchanges hX, Nat.zero_add, ← h.ncard_addresses
      (fun i hi => (mem_freeIndices.mp ((hS i).mp hi).1).1) hX]
    exact .reserveRange
  · exact fun _ _ hfalse => hfalse.elim

/-! ## Release of a range -/

/-- The first loop of `free_range` passes when every page is allocated. -/
theorem Inv.wp_checkPages (valid : range.Valid)
    (hQ : (∀ page < range.pageCount, ∃ i, FrameAt a.spans i (range.start + page * basePageSize) ∧
      a.frameState i = .allocated) → Q () a)
    (hR : ∀ e, (∃ x ∈ range.pages, a.frames x ≠ some .allocated) → R e a) :
    (Act.forEach (List.range range.pageCount) (checkPage range)).wp Q R a := by
  apply wp_forEach fun visited a' => a' = a ∧ ∀ page ∈ visited,
    ∃ i, FrameAt a.spans i (range.start + page * basePageSize) ∧ a.frameState i = .allocated
  · exact ⟨rfl, by simp⟩
  · rintro visited page _ hmem ⟨rfl, hvisited⟩
    rw [mem_range] at hmem
    have hpage : range.start + page * basePageSize ∈ range.pages :=
      valid.mem_pages.mpr ⟨page, hmem, rfl⟩
    have hbelow := hpage.2.2.trans valid.finish_lt
    have hoffset : checkedMul 64 page basePageSize = some (page * basePageSize) :=
      checkedMul_eq_some.mpr ⟨by omega, rfl⟩
    have haddress : checkedAdd 64 range.start (page * basePageSize)
        = some (range.start + page * basePageSize) := checkedAdd_eq_some.mpr ⟨hbelow, rfl⟩
    simp only [checkPage, wp_known, hoffset, haddress, true_and]
    constructor
    · intro i hi
      rw [List.forall_mem_append]
      exact ⟨hvisited, by simpa using ⟨i, h.checkAllocated_eq_ok.mp hi⟩⟩
    · intro e he
      exact hR e ⟨_, hpage, (h.checkAllocated_eq_error he).1⟩
  · rintro a' ⟨ha', hall⟩
    rw [ha']
    exact hQ fun page hpage => hall page (mem_range.mpr hpage)

/-- Its second loop clears the bit of every page. -/
theorem Inv.wp_releasePages {index : ℕ → ℕ} (hat : ∀ page < range.pageCount,
      FrameAt a.spans (index page) (range.start + page * basePageSize))
    (hstate : ∀ page < range.pageCount, a.frameState (index page) = .allocated)
    (hQ : ∀ a', Changes a a' ((List.range range.pageCount).map index).toFinset .free → Q () a') :
    (Act.forEach (List.range range.pageCount) (releasePage range)).wp Q R a := by
  apply wp_forEach fun visited a' => Changes a a' (visited.map index).toFinset .free
  · exact Changes.refl a _
  · intro visited page a' hmem hchanges
    rw [mem_range] at hmem
    have hfind : a'.indexForAddress (range.start + page * basePageSize) = some (index page) := by
      rw [indexForAddress, hchanges.spans]
      exact h.indexForAddress_eq_some.mpr (hat page hmem)
    have hi := h.lt_total (hat page hmem)
    simp only [releasePage, wp_known, hfind, wp_setAllocated (hchanges.total ▸ hi),
      Bool.false_eq_true, if_false]
    have hnot : a'.frameState (index page) ≠ .reserved := by
      rw [hchanges.frameState]
      split <;> simp [hstate page hmem]
    rw [List.map_append, List.toFinset_append]
    exact hchanges.trans (changes_clearAllocated
      (hchanges.allocated_length ▸ hi.trans_le h.allocated_length) hnot)
  · exact hQ

/-- `free_range` releases a range of allocated frames, or nothing. -/
theorem Inv.simulates_freeRange (range : PhysicalRange) (valid : range.Valid) :
    Simulates usable a (.freeRange range valid) := by
  unfold Simulates perform freeRange
  simp only [wp_rules]
  apply h.wp_checkPages valid
  swap
  · exact fun e hforeign => ⟨rfl, .freeRangeRefused hforeign⟩
  intro hindex
  choose! index hat hstate using hindex
  have hmem : ∀ i, i ∈ ((List.range range.pageCount).map index).toFinset ↔
      ∃ page < range.pageCount, index page = i := by
    simp
  have hS : ∀ i ∈ ((List.range range.pageCount).map index).toFinset,
      i < a.totalFrames ∧ a.frameState i ≠ .free := by
    intro i hi
    obtain ⟨page, hlt, rfl⟩ := (hmem i).mp hi
    exact ⟨h.lt_total (hat page hlt), by simp [hstate page hlt]⟩
  -- every page has its own index, so as many bits are cleared as pages are counted
  have hcard : ((List.range range.pageCount).map index).toFinset.card = range.pageCount := by
    rw [List.toFinset_card_of_nodup, List.length_map, List.length_range]
    refine List.Nodup.map_on ?_ List.nodup_range
    intro page hpage page' hpage' heq
    rw [mem_range] at hpage hpage'
    have := h.layout.address_unique (hat page hpage) (heq ▸ hat page' hpage')
    simp only [basePageSize] at this
    omega
  have hX : ∀ x, x ∈ range.pages ↔
      ∃ i ∈ ((List.range range.pageCount).map index).toFinset, FrameAt a.spans i x := by
    intro x
    simp only [valid.mem_pages, hmem]
    constructor
    · rintro ⟨page, hlt, rfl⟩
      exact ⟨_, ⟨page, hlt, rfl⟩, hat page hlt⟩
    · rintro ⟨_, ⟨page, hlt, rfl⟩, hx⟩
      exact ⟨page, hlt, h.layout.address_unique hx (hat page hlt)⟩
  have hadd : checkedAdd 64 a.freeFrames range.pageCount
      = some (a.freeFrames + range.pageCount) := by
    have hroom := h.freeFrames_add_card_le hS
    have htotal := h.layout.total_lt
    exact checkedAdd_eq_some.mpr ⟨by omega, rfl⟩
  simp only [wp_known, hadd]
  apply h.wp_releasePages hat hstate
  intro a' hchanges
  have hwith := hchanges.withFree (a.freeFrames + range.pageCount)
  refine ⟨h.giveBack hwith hS (by rw [hcard]), ?_⟩
  rw [h.frames_changes hwith hX]
  apply FrameMap.Step.freeRange
  intro x hx
  obtain ⟨page, hlt, rfl⟩ := valid.mem_pages.mp hx
  exact h.frames_eq_some.mpr ⟨_, hat page hlt, hstate page hlt⟩

end Troe.Memory.FrameAllocator
