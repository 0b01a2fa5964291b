import Troe.Memory.Map

/-!
# What a normalized memory map says

The spec of each step of `build`, in terms of the kinds that a list of regions shows at addresses,
and from them the correctness of `build`: its regions are the normal form of the pointwise overlay.
-/

namespace Troe.Memory

open Lib
open List (forall_mem_append forall_mem_singleton getLast?_concat map_cons mem_append
  mem_append_left mem_cons mem_cons_of_mem mem_cons_self mem_singleton pairwise_cons sum_cons)
open NormalizedMemoryMap (build)

variable {regions output output' normalized result regions' firmware : List MemoryRegion}
  {a cursor cursor' : ℕ} {k : RegionKind} {region : MemoryRegion}
  {ranges reservations reservations' : List PhysicalRange} {range reservation : PhysicalRange}
  {stats stats' : MemoryMapStats}

/-- A region of the list gives the address this kind. -/
abbrev ShowsKind (regions : List MemoryRegion) (address : ℕ) (kind : RegionKind) : Prop :=
  Shows (fun r : MemoryRegion => r.range.start) (fun r => r.range.finish) MemoryRegion.kind regions
    address kind

theorem showsKind_cons {r : MemoryRegion} : ShowsKind (r :: regions) a k ↔
      ((r.range.start ≤ a ∧ a < r.range.finish) ∧ r.kind = k) ∨ ShowsKind regions a k :=
  shows_cons

/-- Some range of the list covers the address. -/
abbrev CoveredBy (ranges : List PhysicalRange) (address : ℕ) : Prop :=
  Shows PhysicalRange.start PhysicalRange.finish (fun _ => ()) ranges address ()

/-- Page-aligned regions that are sorted, disjoint and maximal. -/
structure Normalized (regions : List MemoryRegion) : Prop where
  valid : ∀ r ∈ regions, r.range.Valid
  normal : NormalForm (fun r : MemoryRegion => r.range.start) (fun r => r.range.finish)
    MemoryRegion.kind regions

theorem Normalized.nil : Normalized [] := ⟨by simp, by simp, .nil⟩

/-- An empty interval adds nothing. -/
theorem or_empty_interval {P Q : Prop} (n : ℕ) : P ↔ P ∨ ((n ≤ a ∧ a < n) ∧ Q) :=
  (or_iff_left fun h => absurd h.1.2 (not_lt.mpr h.1.1)).symm

/-- Two parts of an interval, each with its own description of a common property. -/
theorem split_interval {first middle last : ℕ} {P Q R : Prop} (hfirst : first ≤ middle)
    (hlast : middle ≤ last) (hleft : first ≤ a → a < middle → (P ↔ R))
    (hright : middle ≤ a → a < last → (Q ↔ R)) :
    ((first ≤ a ∧ a < middle) ∧ P) ∨ ((middle ≤ a ∧ a < last) ∧ Q) ↔
      (first ≤ a ∧ a < last) ∧ R := by
  by_cases ha : a < middle
  · rw [or_iff_left fun h => by omega, and_congr_right fun h => hleft h.1 h.2]
    exact and_congr_left fun _ => by omega
  · rw [or_iff_right fun h => ha h.1.2, and_congr_right fun h => hright h.1 h.2]
    exact and_congr_left fun _ => by omega

/-! ## Appending -/

/-- `appendRegion` grows the last region when the new one continues it, and adds it otherwise. -/
theorem appendRegion_eq_ok (h : appendRegion output region = .ok output') :
    (∃ init previous, output = init ++ [previous] ∧ previous.kind = region.kind ∧
      previous.range.finish = region.range.start ∧
      output' = init ++ [{ previous with
        range := { previous.range with finish := region.range.finish } }]) ∨
    (output' = output ++ [region] ∧ ∀ previous ∈ output.getLast?,
      previous.range.finish = region.range.start → previous.kind ≠ region.kind) := by
  rcases List.eq_nil_or_concat' output with rfl | ⟨init, previous, rfl⟩
  · simp only [appendRegion, List.getLast?_nil] at h
    split at h
    · cases h
    · cases h
      exact .inr ⟨rfl, by simp⟩
  · simp only [appendRegion, getLast?_concat, List.dropLast_concat] at h
    split at h
    next hmerge =>
      cases h
      exact .inl ⟨init, previous, rfl, hmerge.1, hmerge.2, rfl⟩
    next hmerge =>
      split at h
      · cases h
      · cases h
        refine .inr ⟨rfl, ?_⟩
        simp only [getLast?_concat, Option.mem_some_iff]
        rintro _ rfl hfinish hkind
        exact hmerge ⟨hkind, hfinish⟩

/-- Appending a region after all others keeps the list normalized and adds the region's addresses
with its kind. -/
theorem Normalized.append (h : Normalized output) (hvalid : region.range.Valid)
    (hle : ∀ r ∈ output, r.range.finish ≤ region.range.start)
    (happend : appendRegion output region = .ok output') :
    Normalized output' ∧ (∀ r ∈ output', r.range.finish ≤ region.range.finish) ∧
      ∀ a k, ShowsKind output' a k ↔ ShowsKind output a k ∨
        ((region.range.start ≤ a ∧ a < region.range.finish) ∧ region.kind = k) := by
  rcases appendRegion_eq_ok happend with ⟨init, previous, rfl, hkind, htouch, rfl⟩ | ⟨rfl, hlast⟩
  · obtain ⟨hinit, hprevious⟩ := forall_mem_append.mp h.valid
    have hprevious := forall_mem_singleton.mp hprevious
    have hlt := hprevious.start_lt
    have hregion := hvalid.start_lt
    refine ⟨⟨forall_mem_append.mpr ⟨hinit, forall_mem_singleton.mpr ?_⟩, ?_⟩,
      forall_mem_append.mpr ⟨fun r hr => ?_, forall_mem_singleton.mpr le_rfl⟩, ?_⟩
    · exact ⟨hprevious.start_aligned, hvalid.finish_aligned, by simp only; omega, hvalid.finish_lt⟩
    · exact h.normal.extend (by simp only; omega) rfl rfl
    · exact (hle r (mem_append_left _ hr)).trans hregion.le
    · intro a k
      simp only [ShowsKind, shows_append, shows_cons, shows_nil, or_false, or_assoc]
      refine or_congr_right ?_
      simp only [Covers, ← hkind, ← or_and_right]
      refine and_congr_left fun _ => ?_
      omega
  · refine ⟨⟨forall_mem_append.mpr ⟨h.valid, forall_mem_singleton.mpr hvalid⟩, ?_⟩,
      forall_mem_append.mpr ⟨fun r hr => ?_, forall_mem_singleton.mpr le_rfl⟩, ?_⟩
    · refine h.normal.concat hvalid.start_lt hle fun previous hprevious => ?_
      exact ⟨hle previous (List.mem_of_mem_getLast? hprevious), hlast previous hprevious⟩
    · exact (hle r hr).trans hvalid.start_lt.le
    · intro a k
      simp only [ShowsKind, shows_append, shows_cons, shows_nil, or_false]
      rfl

/-- There is room for another region. -/
theorem appendRegion_of_length_lt (region : MemoryRegion)
    (h : output.length < maxNormalizedRegions) :
    ∃ output', appendRegion output region = .ok output' ∧ output'.length ≤ output.length + 1 := by
  rcases List.eq_nil_or_concat' output with rfl | ⟨init, previous, rfl⟩
  · exact ⟨[region], by simp [appendRegion, maxNormalizedRegions], by simp⟩
  · simp only [appendRegion, getLast?_concat, List.dropLast_concat]
    split
    · exact ⟨_, rfl, by simp⟩
    · rw [if_neg (not_le.mpr h)]
      exact ⟨_, rfl, by simp⟩

/-! ## Firmware regions -/

/-- The first region lies before the second. -/
abbrev Before (a b : MemoryRegion) : Prop := a.range.finish ≤ b.range.start

/-- Two regions share no address. -/
def Apart (a b : MemoryRegion) : Prop := Before a b ∨ Before b a

theorem Apart.symm {a b : MemoryRegion} (h : Apart a b) : Apart b a := Or.symm h

instance : Std.Symm Apart := ⟨fun _ _ => Apart.symm⟩

/-- A successful pass over firmware regions: they ascend, and the result shows exactly them. -/
theorem normalizeFirmwareLoop_eq_ok
    (hvalid : ∀ r ∈ regions, r.range.Valid) (hnormal : Normalized normalized)
    (h : normalizeFirmwareLoop regions normalized = .ok result) :
    Normalized result ∧ regions.Pairwise Before ∧
      (∀ r ∈ normalized, ∀ s ∈ regions, Before r s) ∧
      ∀ a k, ShowsKind result a k ↔ ShowsKind normalized a k ∨ ShowsKind regions a k := by
  induction regions generalizing normalized with
  | nil =>
    cases h
    exact ⟨hnormal, .nil, by simp, by simp⟩
  | cons region regions ih =>
    simp only [normalizeFirmwareLoop, ok_rules] at h
    obtain ⟨-, hoverlap, output, happend, hrest⟩ := h
    have hregion := hvalid region mem_cons_self
    have hle : ∀ r ∈ normalized, Before r region := by
      apply hnormal.normal.hi_le_of_getLast
      intro r hr
      by_contra hlt
      exact hoverlap ⟨r, hr, not_le.mp hlt⟩
    obtain ⟨houtput, hend, hshows⟩ := hnormal.append hregion hle happend
    obtain ⟨hresult, hpairwise, hcross, hiff⟩ :=
      ih (fun r hr => hvalid r (mem_cons_of_mem _ hr)) houtput hrest
    -- the region that shows the last address of the new one ends no earlier
    have hhead : ∀ s ∈ regions, Before region s := by
      intro s hs
      have hlt := hregion.start_lt
      have hlast : ShowsKind output (region.range.finish - 1) region.kind :=
        (hshows _ _).mpr (.inr ⟨⟨by omega, by omega⟩, rfl⟩)
      obtain ⟨r, hr, ⟨-, hr'⟩, -⟩ := hlast
      have := hcross r hr s hs
      simp only [Before] at this hr' ⊢
      omega
    refine ⟨hresult, pairwise_cons.mpr ⟨hhead, hpairwise⟩, ?_, ?_⟩
    · intro r hr s hs
      rcases mem_cons.mp hs with rfl | hs
      · exact hle r hr
      · have := hle r hr
        have := hhead s hs
        have := hregion.start_lt
        simp only [Before] at *
        omega
    · intro a k
      rw [hiff, hshows]
      exact or_assoc.trans (or_congr_right showsKind_cons.symm)

/-- The pass succeeds on ascending regions when there is room for them. -/
theorem normalizeFirmwareLoop_of_pairwise
    (hvalid : ∀ r ∈ regions, r.range.Valid) (hnormal : Normalized normalized)
    (hlength : normalized.length + regions.length ≤ maxNormalizedRegions)
    (hpairwise : regions.Pairwise Before) (hcross : ∀ r ∈ normalized, ∀ s ∈ regions, Before r s) :
    ∃ result, normalizeFirmwareLoop regions normalized = .ok result := by
  induction regions generalizing normalized with
  | nil => exact ⟨normalized, rfl⟩
  | cons region regions ih =>
    simp only [List.length_cons] at hlength
    obtain ⟨hhead, htail⟩ := pairwise_cons.mp hpairwise
    obtain ⟨output, happend, hroom⟩ := appendRegion_of_length_lt region
      (show normalized.length < maxNormalizedRegions by omega)
    have hle : ∀ r ∈ normalized, Before r region := fun r hr => hcross r hr _ mem_cons_self
    obtain ⟨houtput, hend, -⟩ :=
      hnormal.append (hvalid region mem_cons_self) hle happend
    have hcross' : ∀ r ∈ output, ∀ s ∈ regions, Before r s :=
      fun r hr s hs => (hend r hr).trans (hhead s hs)
    obtain ⟨result, hresult⟩ := ih (fun r hr => hvalid r (mem_cons_of_mem _ hr)) houtput
      (by omega) htail hcross'
    refine ⟨result, ?_⟩
    simp only [normalizeFirmwareLoop, ok_rules]
    refine ⟨(), ?_, output, happend, hresult⟩
    rintro ⟨r, hr, hlt⟩
    exact absurd hlt (not_lt.mpr (hle r (List.mem_of_mem_getLast? hr)))

/-- When there is room, the only failure of the pass is an overlap. -/
theorem normalizeFirmwareLoop_eq_error {e : MemoryMapError}
    (hlength : normalized.length + regions.length ≤ maxNormalizedRegions)
    (h : normalizeFirmwareLoop regions normalized = .error e) : e = .firmwareOverlap := by
  induction regions generalizing normalized with
  | nil => cases h
  | cons region regions ih =>
    simp only [List.length_cons] at hlength
    obtain ⟨output, happend, hroom⟩ := appendRegion_of_length_lt region
      (show normalized.length < maxNormalizedRegions by omega)
    simp only [normalizeFirmwareLoop, happend, rejectIf] at h
    split at h
    · cases h
      rfl
    · exact ih (by omega) h

/-- Sorted regions that share no address ascend. -/
theorem pairwise_before_of_sorted (hvalid : ∀ r ∈ regions, r.range.Valid)
    (hsorted : regions.Pairwise fun a b => a.range.start ≤ b.range.start)
    (hapart : regions.Pairwise Apart) : regions.Pairwise Before := by
  refine (hsorted.and hapart).imp_of_mem ?_
  rintro a b ha hb ⟨hle, hab | hba⟩
  · exact hab
  · have := (hvalid b hb).start_lt
    simp only [Before] at hba ⊢
    omega

/-- The order in which the sort leaves regions with one start address does not matter, nor does the
order in which the firmware supplies its regions. -/
theorem normalizeFirmwareLoop_eq_of_perm
    (hperm : regions.Perm regions') (hvalid : ∀ r ∈ regions, r.range.Valid)
    (hlength : regions.length ≤ maxNormalizedRegions)
    (hsorted : regions.Pairwise fun a b => a.range.start ≤ b.range.start)
    (hsorted' : regions'.Pairwise fun a b => a.range.start ≤ b.range.start) :
    normalizeFirmwareLoop regions [] = normalizeFirmwareLoop regions' [] := by
  have hvalid' : ∀ r ∈ regions', r.range.Valid := fun r hr => hvalid r (hperm.mem_iff.mpr hr)
  have hlength' : regions'.length ≤ maxNormalizedRegions := hperm.length_eq ▸ hlength
  have happly {l l' : List MemoryRegion} (hp : l.Perm l') (hv : ∀ r ∈ l, r.range.Valid)
      (hv' : ∀ r ∈ l', r.range.Valid) (hl : l'.length ≤ maxNormalizedRegions)
      (hs : l'.Pairwise fun a b => a.range.start ≤ b.range.start) {out : List MemoryRegion}
      (hok : normalizeFirmwareLoop l [] = .ok out) :
      ∃ out', normalizeFirmwareLoop l' [] = .ok out' := by
    obtain ⟨-, hpairwise, -, -⟩ := normalizeFirmwareLoop_eq_ok hv .nil hok
    have hapart : l'.Pairwise Apart :=
      (hp.pairwise_iff Apart.symm).mp (hpairwise.imp .inl)
    exact normalizeFirmwareLoop_of_pairwise hv' .nil (by simpa using hl)
      (pairwise_before_of_sorted hv' hs hapart) (by simp)
  rcases hok : normalizeFirmwareLoop regions [] with e | out
  · rcases hok' : normalizeFirmwareLoop regions' [] with e' | out'
    · rw [normalizeFirmwareLoop_eq_error (by simpa using hlength) hok,
        normalizeFirmwareLoop_eq_error (by simpa using hlength') hok']
    · obtain ⟨out, hout⟩ := happly hperm.symm hvalid' hvalid hlength hsorted hok'
      rw [hok] at hout
      cases hout
  · obtain ⟨out', hok'⟩ := happly hperm hvalid hvalid' hlength' hsorted' hok
    obtain ⟨hnormal, -, -, hshows⟩ := normalizeFirmwareLoop_eq_ok hvalid .nil hok
    obtain ⟨hnormal', -, -, hshows'⟩ := normalizeFirmwareLoop_eq_ok hvalid' .nil hok'
    rw [hok']
    congr 1
    refine hnormal.normal.eq_of_shows ?_ hnormal'.normal fun a k => ?_
    · rintro ⟨⟨s, f⟩, k⟩ ⟨⟨s', f'⟩, k'⟩ rfl rfl rfl
      rfl
    · show ShowsKind out a k ↔ ShowsKind out' a k
      rw [hshows, hshows']
      exact or_congr_right (shows_iff_of_perm hperm)

/-- What `normalizeFirmware` returns shows exactly the firmware regions, which share no address. -/
theorem normalizeFirmware_eq_ok
    (hvalid : ∀ r ∈ regions, r.range.Valid) (h : normalizeFirmware regions = .ok result) :
    Normalized result ∧ regions.Pairwise Apart ∧
      ∀ a k, ShowsKind result a k ↔ ShowsKind regions a k := by
  have hperm := sortByKey_perm (fun region : MemoryRegion => region.range.start) regions
  obtain ⟨hnormal, hpairwise, -, hshows⟩ := normalizeFirmwareLoop_eq_ok
    (fun r hr => hvalid r (hperm.mem_iff.mp hr)) .nil h
  refine ⟨hnormal, (hperm.pairwise_iff Apart.symm).mp (hpairwise.imp .inl), fun a k => ?_⟩
  rw [hshows, or_iff_right shows_nil]
  exact shows_iff_of_perm hperm

theorem normalizeFirmware_eq_of_perm
    (hperm : regions.Perm regions') (hvalid : ∀ r ∈ regions, r.range.Valid)
    (hlength : regions.length ≤ maxNormalizedRegions) :
    normalizeFirmware regions = normalizeFirmware regions' := by
  have hsort := sortByKey_perm fun region : MemoryRegion => region.range.start
  refine normalizeFirmwareLoop_eq_of_perm ((hsort regions).trans (hperm.trans (hsort regions').symm))
    (fun r hr => hvalid r ((hsort regions).mem_iff.mp hr)) ?_ (pairwise_sortByKey _ _)
    (pairwise_sortByKey _ _)
  rwa [(hsort regions).length_eq]

/-! ## Reservations -/

/-- Ranges that are sorted and separated by gaps. -/
structure Merged (ranges : List PhysicalRange) : Prop where
  valid : ∀ r ∈ ranges, r.Valid
  normal : NormalForm PhysicalRange.start PhysicalRange.finish (fun _ => ()) ranges

theorem Merged.nil : Merged [] := ⟨by simp, by simp, .nil⟩

theorem coveredBy_cons {r : PhysicalRange} :
    CoveredBy (r :: ranges) a ↔ (r.start ≤ a ∧ a < r.finish) ∨ CoveredBy ranges a := by
  rw [CoveredBy, shows_cons, and_iff_left rfl]
  rfl

/-- Merging a range that starts no earlier than the others adds exactly its addresses. -/
theorem Merged.merge (h : Merged ranges)
    (hvalid : range.Valid) (hle : ∀ r ∈ ranges, r.start ≤ range.start) :
    Merged (mergeReservation ranges range) ∧
      (∀ r ∈ mergeReservation ranges range, r.start ≤ range.start) ∧
      ∀ a, CoveredBy (mergeReservation ranges range) a ↔
        CoveredBy ranges a ∨ (range.start ≤ a ∧ a < range.finish) := by
  have hadd (hlast : ∀ r ∈ ranges.getLast?, r.finish < range.start) :
      Merged (ranges ++ [range]) ∧ (∀ r ∈ ranges ++ [range], r.start ≤ range.start) ∧
      ∀ a, CoveredBy (ranges ++ [range]) a ↔
        CoveredBy ranges a ∨ (range.start ≤ a ∧ a < range.finish) := by
    refine ⟨⟨forall_mem_append.mpr ⟨h.valid, forall_mem_singleton.mpr hvalid⟩, ?_⟩,
      forall_mem_append.mpr ⟨hle, forall_mem_singleton.mpr le_rfl⟩, ?_⟩
    · refine h.normal.concat hvalid.start_lt ?_ fun r hr => ?_
      · exact h.normal.hi_le_of_getLast fun r hr => (hlast r hr).le
      · exact ⟨(hlast r hr).le, fun heq => absurd heq (hlast r hr).ne⟩
    · intro a
      rw [CoveredBy, shows_append]
      exact or_congr_right (coveredBy_cons.trans (or_iff_left shows_nil))
  unfold mergeReservation
  rcases List.eq_nil_or_concat' ranges with rfl | ⟨init, previous, rfl⟩
  · simpa using hadd (by simp)
  · simp only [getLast?_concat, List.dropLast_concat]
    split
    next htouch =>
      obtain ⟨hinit, hprevious⟩ := forall_mem_append.mp h.valid
      have hprevious := forall_mem_singleton.mp hprevious
      have hstart := hle previous (by simp)
      have hlt := hprevious.start_lt
      refine ⟨⟨forall_mem_append.mpr ⟨hinit, forall_mem_singleton.mpr ?_⟩, ?_⟩,
        forall_mem_append.mpr ⟨fun r hr => hle r (mem_append_left _ hr),
          forall_mem_singleton.mpr hstart⟩, ?_⟩
      · exact ⟨hprevious.start_aligned, max_rec' _ hprevious.finish_aligned hvalid.finish_aligned,
          lt_max_of_lt_left hlt, max_lt hprevious.finish_lt hvalid.finish_lt⟩
      · exact h.normal.extend (lt_max_of_lt_left hlt) rfl rfl
      · intro a
        rw [CoveredBy, CoveredBy, shows_append, shows_append, or_assoc]
        refine or_congr_right ?_
        rw [← CoveredBy, ← CoveredBy, coveredBy_cons, coveredBy_cons]
        simp only [shows_nil, or_false, lt_max_iff]
        omega
    next hgap =>
      refine hadd fun r hr => ?_
      rw [getLast?_concat, Option.mem_some_iff] at hr
      exact hr ▸ not_le.mp hgap

/-- Merging sorted ranges. -/
theorem Merged.foldl {normalized : List PhysicalRange} (h : Merged normalized)
    (hvalid : ∀ r ∈ ranges, r.Valid) (hsorted : ranges.Pairwise fun a b => a.start ≤ b.start)
    (hle : ∀ r ∈ normalized, ∀ s ∈ ranges, r.start ≤ s.start) :
    Merged (ranges.foldl mergeReservation normalized) ∧
      ∀ a, CoveredBy (ranges.foldl mergeReservation normalized) a ↔
        CoveredBy normalized a ∨ CoveredBy ranges a := by
  induction ranges generalizing normalized with
  | nil => exact ⟨h, by simp⟩
  | cons range ranges ih =>
    obtain ⟨hhead, htail⟩ := pairwise_cons.mp hsorted
    obtain ⟨hmerged, hstart, hcovered⟩ := h.merge (hvalid range mem_cons_self)
      fun r hr => hle r hr range mem_cons_self
    obtain ⟨hresult, hiff⟩ := ih hmerged (fun r hr => hvalid r (mem_cons_of_mem _ hr)) htail
      fun r hr s hs => (hstart r hr).trans (hhead s hs)
    refine ⟨hresult, fun a => ?_⟩
    rw [List.foldl_cons, hiff, hcovered]
    exact or_assoc.trans (or_congr_right coveredBy_cons.symm)

theorem normalizeReservations_spec (hvalid : ∀ r ∈ reservations, r.Valid) :
    Merged (normalizeReservations reservations) ∧
      ∀ a, CoveredBy (normalizeReservations reservations) a ↔ CoveredBy reservations a := by
  have hperm := sortByKey_perm PhysicalRange.start reservations
  obtain ⟨hmerged, hiff⟩ := Merged.nil.foldl (fun r hr => hvalid r (hperm.mem_iff.mp hr))
    (pairwise_sortByKey _ _) (by simp)
  refine ⟨hmerged, fun a => ?_⟩
  exact (hiff a).trans ((or_iff_right shows_nil).trans (shows_iff_of_perm hperm))

/-- The order in which reservations are supplied does not matter. -/
theorem normalizeReservations_eq_of_perm
    (hperm : reservations.Perm reservations') (hvalid : ∀ r ∈ reservations, r.Valid) :
    normalizeReservations reservations = normalizeReservations reservations' := by
  obtain ⟨hmerged, hiff⟩ := normalizeReservations_spec hvalid
  have hvalid' : ∀ r ∈ reservations', r.Valid := fun r hr => hvalid r (hperm.mem_iff.mpr hr)
  obtain ⟨hmerged', hiff'⟩ := normalizeReservations_spec hvalid'
  refine hmerged.normal.eq_of_shows ?_ hmerged'.normal fun a _ => ?_
  · rintro ⟨s, f⟩ ⟨s', f'⟩ rfl rfl -
    rfl
  · show CoveredBy _ a ↔ CoveredBy _ a
    rw [hiff, hiff']
    exact shows_iff_of_perm hperm

/-- A covered range is shown by the regions at all of its addresses. -/
theorem rangeIsCoveredLoop_sound
    (h : rangeIsCoveredLoop range regions cursor = true) (hcursor : cursor ≤ a)
    (ha : a < range.finish) : ∃ k, ShowsKind regions a k := by
  induction regions generalizing cursor with
  | nil => cases h
  | cons region regions ih =>
    have hrest {cursor : ℕ} (h : rangeIsCoveredLoop range regions cursor = true)
        (hcursor : cursor ≤ a) : ∃ k, ShowsKind (region :: regions) a k := by
      obtain ⟨k, hk⟩ := ih h hcursor
      exact ⟨k, showsKind_cons.mpr (.inr hk)⟩
    simp only [rangeIsCoveredLoop] at h
    split at h
    · exact hrest h hcursor
    · split at h
      · cases h
      · by_cases hin : a < region.range.finish
        · exact ⟨region.kind, showsKind_cons.mpr (.inl ⟨⟨by omega, hin⟩, rfl⟩)⟩
        · split at h
          · omega
          · exact hrest h (by omega)

/-! ## The overlay -/

/-- The kind of an address of a region under reservations. -/
def overlaidKind (reservations : List PhysicalRange) (kind : RegionKind) (a : ℕ) (k : RegionKind) :
    Prop :=
  (CoveredBy reservations a ∧ k = .reserved) ∨ (¬ CoveredBy reservations a ∧ k = kind)

theorem overlaidKind_of_not_covered {kind : RegionKind} (h : ¬ CoveredBy reservations a) :
    overlaidKind reservations kind a k ↔ kind = k := by
  simp only [overlaidKind, h, false_and, not_false_eq_true, true_and, false_or, eq_comm]

/-- What the overlay loop guarantees when it starts at `cursor` and stops at `cursor'`. -/
structure Overlaid (region : MemoryRegion) (reservations : List PhysicalRange) (cursor : ℕ)
    (output output' : List MemoryRegion) (cursor' : ℕ) : Prop where
  normalized : Normalized output'
  le_cursor : ∀ r ∈ output', r.range.finish ≤ cursor'
  cursor_le : cursor ≤ cursor'
  cursor_le_finish : cursor' ≤ region.range.finish
  aligned : basePageSize ∣ cursor'
  shows : ∀ a k, ShowsKind output' a k ↔ ShowsKind output a k ∨
    ((cursor ≤ a ∧ a < cursor') ∧ overlaidKind reservations region.kind a k)
  rest : ∀ a, cursor' ≤ a → a < region.range.finish → ¬ CoveredBy reservations a

/-- One reservation laid over the region up to `middle`, and the rest after it. -/
theorem Overlaid.prepend {middle : ℕ} {reserved : List MemoryRegion}
    (h : Overlaid region reservations middle reserved output' cursor') (hcursor : cursor ≤ middle)
    (hpart : ∀ a k, ShowsKind reserved a k ↔ ShowsKind output a k ∨
      ((cursor ≤ a ∧ a < middle) ∧ overlaidKind (reservation :: reservations) region.kind a k))
    (hcovered : ∀ a, middle ≤ a → a < region.range.finish →
      (CoveredBy (reservation :: reservations) a ↔ CoveredBy reservations a)) :
    Overlaid region (reservation :: reservations) cursor output output' cursor' := by
  have hmiddle := h.cursor_le
  have hfinish := h.cursor_le_finish
  refine ⟨h.normalized, h.le_cursor, hcursor.trans hmiddle, hfinish, h.aligned, ?_, ?_⟩
  · intro a k
    rw [h.shows, hpart, or_assoc]
    refine or_congr_right (split_interval hcursor hmiddle (fun _ _ => Iff.rfl) fun hle hlt => ?_)
    rw [overlaidKind, overlaidKind, hcovered a hle (hlt.trans_le hfinish)]
  · intro a h1 h2
    rw [hcovered a (hmiddle.trans h1) h2]
    exact h.rest a h1 h2

/-- A reservation that does not meet the rest of the region changes nothing. -/
theorem Overlaid.skip (h : Overlaid region reservations cursor output output' cursor')
    (hskip : reservation.finish ≤ cursor ∨ region.range.finish ≤ reservation.start) :
    Overlaid region (reservation :: reservations) cursor output output' cursor' := by
  refine h.prepend le_rfl (fun a k => or_empty_interval cursor) fun a hcursor ha => ?_
  rw [coveredBy_cons]
  exact or_iff_right (by omega)

/-- The loop before it meets a reservation. -/
theorem Overlaid.start (hnormal : Normalized output) (hle : ∀ r ∈ output, r.range.finish ≤ cursor)
    (haligned : basePageSize ∣ cursor) (hcursor : cursor ≤ region.range.finish)
    (hrest : ∀ a, cursor ≤ a → a < region.range.finish → ¬ CoveredBy reservations a) :
    Overlaid region reservations cursor output output cursor :=
  ⟨hnormal, hle, le_rfl, hcursor, haligned, fun _ _ => or_empty_interval cursor, hrest⟩

section

variable {region : MemoryRegion} {reservation : PhysicalRange} {cursor : ℕ}
  {output output' : List MemoryRegion}

theorem overlayGap_eq_ok (haligned : basePageSize ∣ cursor) (hregion : region.range.Valid)
    (hreservation : reservation.Valid) (hmeet : reservation.start < region.range.finish)
    (hnormal : Normalized output) (hle : ∀ r ∈ output, r.range.finish ≤ cursor)
    (h : overlayGap region reservation cursor output = .ok output') :
    Normalized output' ∧ (∀ r ∈ output', r.range.finish ≤ max cursor reservation.start) ∧
      ∀ a k, ShowsKind output' a k ↔ ShowsKind output a k ∨
        ((cursor ≤ a ∧ a < max cursor reservation.start) ∧ region.kind = k) := by
  unfold overlayGap at h
  split at h
  next hgap =>
    have hmin : min reservation.start region.range.finish = reservation.start :=
      min_eq_left hmeet.le
    rw [hmin] at h
    rw [max_eq_right hgap.le]
    have hlt := hregion.finish_lt
    exact hnormal.append ⟨haligned, hreservation.start_aligned, hgap, by simp only; omega⟩ hle h
  next hgap =>
    cases h
    rw [max_eq_left (not_lt.mp hgap)]
    exact ⟨hnormal, hle, fun a k => or_empty_interval cursor⟩

theorem overlayReserved_eq_ok {cursor' : ℕ} (hcursor : cursor < region.range.finish)
    (haligned : basePageSize ∣ cursor) (hregion : region.range.Valid)
    (hreservation : reservation.Valid) (hmeet : reservation.start < region.range.finish)
    (hbefore : cursor < reservation.finish) (hnormal : Normalized output)
    (hle : ∀ r ∈ output, r.range.finish ≤ max cursor reservation.start)
    (h : overlayReserved region reservation cursor output = .ok (output', cursor')) :
    cursor' = min region.range.finish reservation.finish ∧ basePageSize ∣ cursor' ∧
      Normalized output' ∧ (∀ r ∈ output', r.range.finish ≤ cursor') ∧
      ∀ a k, ShowsKind output' a k ↔ ShowsKind output a k ∨
        ((max cursor reservation.start ≤ a ∧ a < cursor') ∧ .reserved = k) := by
  have hlt := hreservation.start_lt
  have hinside : max cursor reservation.start < min region.range.finish reservation.finish :=
    max_lt (lt_min hcursor hbefore) (lt_min hmeet hlt)
  have hstart : basePageSize ∣ max cursor reservation.start :=
    max_rec' _ haligned hreservation.start_aligned
  have hend : basePageSize ∣ min region.range.finish reservation.finish :=
    min_rec' _ hregion.finish_aligned hreservation.finish_aligned
  simp only [overlayReserved, if_pos hinside, ok_rules, pure, Except.pure, Except.ok.injEq,
    Prod.mk.injEq] at h
  obtain ⟨_, happend, rfl, rfl⟩ := h
  have hvalid : PhysicalRange.Valid
      ⟨max cursor reservation.start, min region.range.finish reservation.finish⟩ :=
    ⟨hstart, hend, hinside, (min_le_left _ _).trans_lt hregion.finish_lt⟩
  exact ⟨rfl, hend, hnormal.append hvalid hle happend⟩

/-- The loop lays the reservations over the region up to the cursor it returns, and no reservation
meets what is left. -/
theorem overlayLoop_eq_ok (hregion : region.range.Valid) {reservations : List PhysicalRange}
    (hmerged : Merged reservations) (hcursor : cursor < region.range.finish)
    (haligned : basePageSize ∣ cursor) {cursor' : ℕ} (hnormal : Normalized output)
    (hle : ∀ r ∈ output, r.range.finish ≤ cursor)
    (h : overlayLoop region reservations cursor output = .ok (output', cursor')) :
    Overlaid region reservations cursor output output' cursor' := by
  induction reservations generalizing cursor output with
  | nil =>
    cases h
    exact .start hnormal hle haligned hcursor.le (by simp)
  | cons reservation reservations ih =>
    have hreservation := hmerged.valid reservation mem_cons_self
    have hrest : Merged reservations :=
      ⟨fun r hr => hmerged.valid r (mem_cons_of_mem _ hr), hmerged.normal.tail⟩
    simp only [overlayLoop] at h
    split at h
    next hskip => exact (ih hrest hcursor haligned hnormal hle h).skip hskip
    next hmeet =>
      rw [not_or, not_le, not_le] at hmeet
      simp only [ok_rules, Prod.exists] at h
      obtain ⟨gap, hgap, reserved, middle, hreserved, htail⟩ := h
      obtain ⟨hgapNormal, hgapLe, hgapShows⟩ :=
        overlayGap_eq_ok haligned hregion hreservation hmeet.2 hnormal hle hgap
      obtain ⟨hmiddle, hmiddleAligned, hreservedNormal, hreservedLe, hreservedShows⟩ :=
        overlayReserved_eq_ok hcursor haligned hregion hreservation hmeet.2 hmeet.1
          hgapNormal hgapLe hreserved
      have hbegin : cursor ≤ middle := by omega
      have hpart (a : ℕ) (k : RegionKind) : ShowsKind reserved a k ↔ ShowsKind output a k ∨
          ((cursor ≤ a ∧ a < middle) ∧
            overlaidKind (reservation :: reservations) region.kind a k) := by
        rw [hreservedShows, hgapShows, or_assoc]
        have hlt := hreservation.start_lt
        refine or_congr_right (split_interval (le_max_left _ _) (by omega) (fun hle hbefore => ?_)
          fun hle hin => ?_)
        · rw [overlaidKind_of_not_covered]
          rw [coveredBy_cons]
          rintro (hin | hlater)
          · omega
          · have := hmerged.normal.le_of_shows_tail hlater
            omega
        · have hcovered : CoveredBy (reservation :: reservations) a :=
            coveredBy_cons.mpr (.inl ⟨by omega, by omega⟩)
          simp only [overlaidKind, hcovered, true_and, not_true_eq_false, false_and, or_false,
            eq_comm]
      have hrestCovered (a : ℕ) (ha : middle ≤ a) (ha' : a < region.range.finish) :
          CoveredBy (reservation :: reservations) a ↔ CoveredBy reservations a := by
        rw [coveredBy_cons]
        exact or_iff_right (by omega)
      have hlast : Overlaid region reservations middle reserved output' cursor' := by
        split at htail
        next hfinish =>
          cases htail
          exact .start hreservedNormal hreservedLe hmiddleAligned hfinish.le (by omega)
        · exact ih hrest (by omega) hmiddleAligned hreservedNormal hreservedLe htail
      exact hlast.prepend hbegin hpart hrestCovered

/-- Overlaying one region adds its addresses with their kinds under the reservations. -/
theorem overlayRegion_eq_ok (hregion : region.range.Valid) {reservations : List PhysicalRange}
    (hmerged : Merged reservations) (hnormal : Normalized output)
    (hle : ∀ r ∈ output, r.range.finish ≤ region.range.start)
    (h : overlayRegion reservations output region = .ok output') :
    Normalized output' ∧ (∀ r ∈ output', r.range.finish ≤ region.range.finish) ∧
      ∀ a k, ShowsKind output' a k ↔ ShowsKind output a k ∨
        ((region.range.start ≤ a ∧ a < region.range.finish) ∧
          overlaidKind reservations region.kind a k) := by
  simp only [overlayRegion, ok_rules, Prod.exists] at h
  obtain ⟨middle, cursor, hloop, hlast⟩ := h
  have hover := overlayLoop_eq_ok hregion hmerged hregion.start_lt hregion.start_aligned hnormal
    hle hloop
  have hbegin := hover.cursor_le
  have hend := hover.cursor_le_finish
  split at hlast
  next hlt =>
    have hvalid : PhysicalRange.Valid ⟨cursor, region.range.finish⟩ :=
      ⟨hover.aligned, hregion.finish_aligned, hlt, hregion.finish_lt⟩
    obtain ⟨hfinal, hbound, hshows⟩ := hover.normalized.append hvalid hover.le_cursor hlast
    refine ⟨hfinal, hbound, fun a k => ?_⟩
    rw [hshows, hover.shows, or_assoc]
    refine or_congr_right (split_interval hbegin hend (fun _ _ => Iff.rfl) fun hle hlt => ?_)
    rw [overlaidKind_of_not_covered (hover.rest a hle hlt)]
  next hlt =>
    cases hlast
    obtain rfl : cursor = region.range.finish := by omega
    exact ⟨hover.normalized, hover.le_cursor, hover.shows⟩

end

/-- Overlaying ascending regions one after the other. -/
theorem foldlM_overlayRegion_eq_ok (hmerged : Merged reservations) (hregions : Normalized regions)
    (hnormal : Normalized output) (hle : ∀ r ∈ output, ∀ s ∈ regions, Before r s)
    (h : regions.foldlM (overlayRegion reservations) output = .ok result) :
    Normalized result ∧ ∀ a k, ShowsKind result a k ↔ ShowsKind output a k ∨
      ∃ kind, ShowsKind regions a kind ∧ overlaidKind reservations kind a k := by
  induction regions generalizing output with
  | nil =>
    cases h
    exact ⟨hnormal, by simp⟩
  | cons region regions ih =>
    rw [List.foldlM_cons, bind_eq_ok] at h
    obtain ⟨middle, hregion, hrest⟩ := h
    obtain ⟨hhead, htail⟩ := pairwise_cons.mp hregions.normal.precedes
    obtain ⟨hmiddle, hbound, hshows⟩ := overlayRegion_eq_ok
      (hregions.valid region mem_cons_self) hmerged hnormal
      (fun r hr => hle r hr region mem_cons_self) hregion
    have hregions' : Normalized regions :=
      ⟨fun r hr => hregions.valid r (mem_cons_of_mem _ hr), hregions.normal.tail⟩
    obtain ⟨hresult, hiff⟩ := ih hregions' hmiddle
      (fun r hr s hs => (hbound r hr).trans (hhead s hs).1) hrest
    refine ⟨hresult, fun a k => ?_⟩
    rw [hiff, hshows, or_assoc]
    refine or_congr_right ?_
    simp only [showsKind_cons, or_and_right, exists_or]
    refine or_congr_left ?_
    constructor
    · rintro ⟨hin, hk⟩
      exact ⟨region.kind, ⟨hin, rfl⟩, hk⟩
    · rintro ⟨_, ⟨hin, rfl⟩, hk⟩
      exact ⟨hin, hk⟩

/-! ## Statistics -/

/-- The bytes of the regions of one kind. -/
def bytesOf (regions : List MemoryRegion) (kind : RegionKind) : ℕ :=
  ((regions.filter (·.kind = kind)).map (·.range.byteCount)).sum

theorem bytesOf_cons (region : MemoryRegion) (regions : List MemoryRegion) (kind : RegionKind) :
    bytesOf (region :: regions) kind
      = (if region.kind = kind then region.range.byteCount else 0) + bytesOf regions kind := by
  by_cases hkind : region.kind = kind
  · simp [bytesOf, hkind]
  · simp [bytesOf, hkind]

theorem addStats_eq_ok (h : addStats stats region = .ok stats') : stats'.usableBytes
        = stats.usableBytes + (if region.kind = .usable then region.range.byteCount else 0) ∧
      stats'.reservedBytes
        = stats.reservedBytes + (if region.kind = .reserved then region.range.byteCount else 0) := by
  unfold addStats at h
  split at h
  all_goals
    next hkind =>
      simp only [ok_rules] at h
      obtain ⟨_, ⟨-, rfl⟩, hstats⟩ := h
      cases hstats
      simp [hkind]

/-- The statistics are the sums over the regions. -/
theorem foldlM_addStats_eq_ok (h : regions.foldlM addStats stats = .ok stats') :
    stats'.usableBytes = stats.usableBytes + bytesOf regions .usable ∧
      stats'.reservedBytes = stats.reservedBytes + bytesOf regions .reserved := by
  induction regions generalizing stats with
  | nil =>
    cases h
    exact ⟨rfl, rfl⟩
  | cons region regions ih =>
    rw [List.foldlM_cons, bind_eq_ok] at h
    obtain ⟨middle, hstep, hrest⟩ := h
    obtain ⟨husable, hreserved⟩ := ih hrest
    obtain ⟨hmiddle, hmiddle'⟩ := addStats_eq_ok hstep
    rw [husable, hreserved, hmiddle, hmiddle', bytesOf_cons, bytesOf_cons]
    exact ⟨Nat.add_assoc _ _ _, Nat.add_assoc _ _ _⟩

/-- Disjoint regions below an address have fewer bytes than the address. -/
theorem Normalized.sum_byteCount_le (h : Normalized regions) {b : ℕ}
    (hb : ∀ r ∈ regions, r.range.finish ≤ b) :
    (regions.map (·.range.byteCount)).sum ≤ b := by
  induction regions using List.reverseRecOn generalizing b with
  | nil => simp
  | append_singleton regions region ih =>
    obtain ⟨hinit, -, hcross⟩ := List.pairwise_append.mp h.normal.precedes
    have hinit' : Normalized regions :=
      ⟨fun r hr => h.valid r (mem_append_left _ hr),
        fun r hr => h.normal.proper r (mem_append_left _ hr), hinit⟩
    have hsum := ih hinit' fun r hr => (hcross r hr region (List.mem_singleton_self _)).1
    have hregion := hb region (by simp)
    have hlt := (h.valid region (by simp)).start_lt
    simp only [List.map_append, map_cons, List.map_nil, List.sum_append, sum_cons,
      List.sum_nil, PhysicalRange.byteCount] at *
    omega

theorem bytesOf_add (regions : List MemoryRegion) :
    bytesOf regions .usable + bytesOf regions .reserved
      = (regions.map (·.range.byteCount)).sum := by
  induction regions with
  | nil => rfl
  | cons region regions ih =>
    rw [bytesOf_cons, bytesOf_cons, map_cons, sum_cons]
    cases region.kind <;> simp <;> omega

/-! ## Correctness of `build` -/

/-- The kind a list of regions reports for an address. -/
def kindAt (regions : List MemoryRegion) (address : ℕ) : Option RegionKind :=
  (regions.find? fun region => region.range.contains address).map MemoryRegion.kind

theorem contains_iff : range.contains a = true ↔ range.start ≤ a ∧ a < range.finish := by
  simp [PhysicalRange.contains]

theorem coveredBy_iff : CoveredBy ranges a ↔ ∃ r ∈ ranges, r.contains a = true := by
  simp [CoveredBy, Shows, Covers, contains_iff]

/-- Among regions that share no address, the reported kind is the one shown. -/
theorem kindAt_eq_some_iff (hapart : regions.Pairwise Apart)
    : kindAt regions a = some k ↔ ShowsKind regions a k := by
  rw [kindAt, Option.map_eq_some_iff]
  constructor
  · rintro ⟨r, hfind, rfl⟩
    have hcontains : r.range.contains a = true := by simpa using List.find?_some hfind
    exact ⟨r, List.mem_of_find?_eq_some hfind, contains_iff.mp hcontains, rfl⟩
  · rintro ⟨r, hr, hcovers, rfl⟩
    have hsome : (regions.find? fun region => region.range.contains a).isSome :=
      List.find?_isSome.mpr ⟨r, hr, contains_iff.mpr hcovers⟩
    obtain ⟨r', hfind⟩ := Option.isSome_iff_exists.mp hsome
    refine ⟨r', hfind, ?_⟩
    have hcovers' : r'.range.contains a = true := by simpa using List.find?_some hfind
    rw [contains_iff] at hcovers'
    by_contra hne
    have hdistinct : r' ≠ r := fun heq => hne (congrArg _ heq)
    rcases hapart.forall (List.mem_of_find?_eq_some hfind) hr hdistinct with h | h
    all_goals
      simp only [Before, Covers] at h hcovers
      omega

theorem Normalized.pairwise_before (h : Normalized regions) : regions.Pairwise Before :=
  h.normal.precedes.imp fun hab => hab.1

/-- Regions that touch have different kinds, wherever they stand in the list. -/
theorem Normalized.touching_ne (h : Normalized regions)
    (a : MemoryRegion) (ha : a ∈ regions) (b : MemoryRegion) (hb : b ∈ regions)
    (htouch : a.range.finish = b.range.start) : a.kind ≠ b.kind := by
  have ha' := (h.valid a ha).start_lt
  have hb' := (h.valid b hb).start_lt
  have hne : a ≠ b := by
    rintro rfl
    omega
  -- the earlier of the two in the list can only be `a`
  obtain ⟨l, l', rfl⟩ := List.append_of_mem ha
  obtain ⟨-, hright, hcross⟩ := List.pairwise_append.mp h.normal.precedes
  rcases mem_append.mp hb with hb | hb
  · have := (hcross b hb a mem_cons_self).1
    simp only at this
    omega
  · rcases mem_cons.mp hb with heq | hb
    · exact absurd heq.symm hne
    · exact ((pairwise_cons.mp hright).1 b hb).2 htouch

/-- Everything a successful `build` went through. -/
theorem build_eq_ok {map : NormalizedMemoryMap} (hfirmware : ∀ r ∈ firmware, r.range.Valid)
    (hreservations : ∀ r ∈ reservations, r.Valid)
    (h : build firmware reservations = .ok map) :
    Normalized map.regions ∧ firmware.Pairwise Apart ∧
      (∀ a, CoveredBy reservations a → ∃ k, ShowsKind firmware a k) ∧
      (∀ a k, ShowsKind map.regions a k ↔
        ∃ kind, ShowsKind firmware a kind ∧ overlaidKind reservations kind a k) ∧
      map.stats.usableBytes = bytesOf map.regions .usable ∧
      map.stats.reservedBytes = bytesOf map.regions .reserved := by
  simp only [build, ok_rules] at h
  obtain ⟨-, -, normalized, hnormalize, -, hcovered, regions, hoverlay, stats, hstats, hmap⟩ := h
  cases hmap
  obtain ⟨hnormal, hapart, hshows⟩ := normalizeFirmware_eq_ok hfirmware hnormalize
  obtain ⟨hmerged, hmergedIff⟩ := normalizeReservations_spec hreservations
  obtain ⟨hregions, hiff⟩ :=
    foldlM_overlayRegion_eq_ok hmerged hnormal .nil (by simp) hoverlay
  obtain ⟨husable, hreserved⟩ := foldlM_addStats_eq_ok hstats
  refine ⟨hregions, hapart, ?_, ?_, by simpa using husable, by simpa using hreserved⟩
  · intro a ha
    obtain ⟨r, hr, hin, -⟩ := (hmergedIff a).mpr ha
    have hloop : rangeIsCovered r normalized = true := by
      by_contra hfalse
      exact hcovered ⟨r, hr, hfalse⟩
    obtain ⟨k, hk⟩ := rangeIsCoveredLoop_sound hloop hin.1 hin.2
    exact ⟨k, (hshows a k).mp hk⟩
  · intro a k
    rw [hiff]
    simp only [overlaidKind, hmergedIff, hshows, shows_nil, false_or]

/-- The pointwise reading of the shown kinds. -/
theorem kindAt_overlay (hapart : firmware.Pairwise Apart) (hnormal : Normalized regions)
    (hcovered : ∀ a, CoveredBy reservations a → ∃ k, ShowsKind firmware a k)
    (hshows : ∀ a k, ShowsKind regions a k ↔
      ∃ kind, ShowsKind firmware a kind ∧ overlaidKind reservations kind a k) (address : ℕ) :
    kindAt regions address = if ∃ r ∈ reservations, r.contains address then some .reserved
        else kindAt firmware address := by
  have hregions : regions.Pairwise Apart := hnormal.pairwise_before.imp .inl
  split
  next hcontains =>
    have hin := coveredBy_iff.mpr hcontains
    obtain ⟨k, hk⟩ := hcovered address hin
    rw [kindAt_eq_some_iff hregions, hshows]
    exact ⟨k, hk, .inl ⟨hin, rfl⟩⟩
  next hcontains =>
    have hout : ¬ CoveredBy reservations address := fun hin => hcontains (coveredBy_iff.mp hin)
    apply Option.ext
    intro k
    rw [kindAt_eq_some_iff hregions, kindAt_eq_some_iff hapart, hshows]
    simp only [overlaidKind, hout, false_and, not_false_eq_true, true_and, false_or]
    constructor
    · rintro ⟨kind, hk, rfl⟩
      exact hk
    · intro hk
      exact ⟨k, hk, rfl⟩

/-- `build` does not depend on the order of its inputs. -/
theorem build_eq_of_perm {firmware' : List MemoryRegion}
    (hfirmware : ∀ r ∈ firmware, r.range.Valid) (hreservations : ∀ r ∈ reservations, r.Valid)
    (hperm : firmware.Perm firmware') (hperm' : reservations.Perm reservations') :
    build firmware reservations = build firmware' reservations' := by
  unfold build
  rw [hperm.length_eq, hperm'.length_eq, normalizeReservations_eq_of_perm hperm' hreservations]
  by_cases hmany : maxFirmwareRegions < firmware'.length ∨ maxReservations < reservations'.length
  · simp only [rejectIf, if_pos hmany]
    rfl
  · have hlength : firmware.length ≤ maxNormalizedRegions := by
      rw [hperm.length_eq]
      simp only [maxFirmwareRegions, maxNormalizedRegions] at hmany ⊢
      omega
    rw [normalizeFirmware_eq_of_perm hperm hfirmware hlength]

/-- `build` on firmware regions and reservations that were made by `fromPages`.

A map it returns has page-aligned regions that are sorted, disjoint and maximal. Every address is
reserved where a reservation covers it and has its firmware kind otherwise, and the statistics are
the sums over the regions. Overlapping firmware regions and reservations that the firmware does not
cover are refused. The order of the two inputs does not matter. -/
theorem build_correct {firmware : List MemoryRegion} {reservations : List PhysicalRange}
    (hfirmware : ∀ r ∈ firmware, r.range.Valid) (hreservations : ∀ r ∈ reservations, r.Valid) :
    (∀ map, NormalizedMemoryMap.build firmware reservations = .ok map →
      (∀ r ∈ map.regions, r.range.Valid) ∧
      map.regions.Pairwise (fun a b => a.range.finish ≤ b.range.start) ∧
      (∀ a ∈ map.regions, ∀ b ∈ map.regions,
        a.range.finish = b.range.start → a.kind ≠ b.kind) ∧
      (∀ address, kindAt map.regions address
        = if ∃ r ∈ reservations, r.contains address then some .reserved
          else kindAt firmware address) ∧
      map.stats.usableBytes = bytesOf map.regions .usable ∧
      map.stats.reservedBytes = bytesOf map.regions .reserved ∧
      map.stats.totalBytes = (map.regions.map (·.range.byteCount)).sum) ∧
    (¬ firmware.Pairwise Apart →
      ∀ map, NormalizedMemoryMap.build firmware reservations ≠ .ok map) ∧
    ((∃ r ∈ reservations, ∃ address, r.contains address ∧ kindAt firmware address = none) →
      ∀ map, NormalizedMemoryMap.build firmware reservations ≠ .ok map) ∧
    ∀ firmware' reservations', firmware.Perm firmware' → reservations.Perm reservations' →
      NormalizedMemoryMap.build firmware' reservations'
        = NormalizedMemoryMap.build firmware reservations := by
  refine ⟨fun map hmap => ?_, fun hoverlap map hmap => ?_, ?_, ?_⟩
  · obtain ⟨hnormal, hapart, hcovered, hshows, husable, hreserved⟩ :=
      build_eq_ok hfirmware hreservations hmap
    refine ⟨hnormal.valid, hnormal.pairwise_before, ?_, ?_, husable, hreserved, ?_⟩
    · exact hnormal.touching_ne
    · exact kindAt_overlay hapart hnormal hcovered hshows
    · have hbound : (map.regions.map (·.range.byteCount)).sum < 2 ^ 64 := by
        have := hnormal.sum_byteCount_le (b := 2 ^ 64 - 1) fun r hr => by
          have := (hnormal.valid r hr).finish_lt
          omega
        omega
      rw [MemoryMapStats.totalBytes, husable, hreserved, bytesOf_add, Nat.mod_eq_of_lt hbound]
  · obtain ⟨-, hapart, -⟩ := build_eq_ok hfirmware hreservations hmap
    exact hoverlap hapart
  · rintro ⟨r, hr, address, hcontains, hnone⟩ map hmap
    obtain ⟨-, hapart, hcovered, -⟩ := build_eq_ok hfirmware hreservations hmap
    obtain ⟨k, hk⟩ := hcovered address (coveredBy_iff.mpr ⟨r, hr, hcontains⟩)
    rw [← kindAt_eq_some_iff hapart, hnone] at hk
    cases hk
  · intro firmware' reservations' hperm hperm'
    exact (build_eq_of_perm hfirmware hreservations hperm hperm').symm

/-- Two usable regions and one reserved, given out of order, with a reservation across two of
them. -/
theorem build_correct_three_regions :
    let firmware : List MemoryRegion :=
      [⟨⟨16384, 24576⟩, .reserved⟩, ⟨⟨8192, 16384⟩, .usable⟩, ⟨⟨0, 8192⟩, .usable⟩]
    let regions : List MemoryRegion := [⟨⟨0, 12288⟩, .usable⟩, ⟨⟨12288, 24576⟩, .reserved⟩]
    build firmware [⟨12288, 20480⟩]
        = .ok { regions, stats := { usableBytes := 12288, reservedBytes := 12288 } } ∧
      ∀ address, kindAt regions address
        = if ∃ r ∈ ([⟨12288, 20480⟩] : List PhysicalRange), r.contains address then some .reserved
          else kindAt firmware address := by
  intro firmware regions
  have hbuild : build firmware [⟨12288, 20480⟩]
      = .ok { regions, stats := { usableBytes := 12288, reservedBytes := 12288 } } := by decide
  have hvalid : ∀ r ∈ firmware, r.range.Valid := by
    simp only [firmware, mem_cons, List.not_mem_nil, or_false, forall_eq_or_imp, forall_eq]
    exact ⟨⟨by decide, by decide, by decide, by decide⟩, ⟨by decide, by decide, by decide,
      by decide⟩, ⟨by decide, by decide, by decide, by decide⟩⟩
  have hreservation : ∀ r ∈ ([⟨12288, 20480⟩] : List PhysicalRange), r.Valid := by
    simp only [mem_singleton, forall_eq]
    exact ⟨by decide, by decide, by decide, by decide⟩
  obtain ⟨-, -, -, hkind, -⟩ := (build_correct hvalid hreservation).1 _ hbuild
  exact ⟨hbuild, hkind⟩

end Troe.Memory
